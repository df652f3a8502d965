import Montage.Proofs.Scene.Nodes

/-!
# Streams of scenes

Which streams the compilation of a node gives.

**Input.** A scene.

**Algorithm.** A sequence stops at its first open child, so what follows that child is neither seen nor
heard. A parallel has a canvas if one of its children has a video, and a sound if one of them gives
one.

**Results.** `Scene.hasVideo_of_shows`, `Scene.hasAudio_of_sounds`: what a node gives it bears.
-/

namespace Montage
namespace Scene

variable {τ π : Type}

mutual

/-- Whether the compilation of a node gives a video: what follows an open child is left out. -/
def shows : Scene τ π → Bool
  | leaf _ kind _ _ => kind.hasVideo
  | container _ style items =>
      match style.order with
      | .sequence => showsSequence items
      | .parallel => anyVideo items

def showsSequence : List (Scene τ π) → Bool
  | [] => false
  | item :: rest => item.shows || (!item.style.objectLength.isFit && showsSequence rest)

end

mutual

/-- Whether the compilation of a node gives an audio. -/
def sounds : Scene τ π → Bool
  | leaf _ kind _ _ => kind.hasAudio
  | container _ style items =>
      match style.order with
      | .sequence => soundsSequence items
      | .parallel => soundsParallel items

def soundsSequence : List (Scene τ π) → Bool
  | [] => false
  | item :: rest => item.sounds || (!item.style.objectLength.isFit && soundsSequence rest)

def soundsParallel : List (Scene τ π) → Bool
  | [] => false
  | item :: rest => item.sounds || soundsParallel rest

end

mutual

/-- What gives a video has one. -/
theorem hasVideo_of_shows : ∀ {scene : Scene τ π}, scene.shows = true → scene.hasVideo = true
  | leaf _ kind _ _, h => h
  | container _ style items, h => by
      unfold shows at h
      split at h
      · exact anyVideo_of_showsSequence h
      · exact h

theorem anyVideo_of_showsSequence : ∀ {items : List (Scene τ π)},
    showsSequence items = true → anyVideo items = true
  | item :: rest, h => by
      simp only [showsSequence, Bool.or_eq_true, Bool.and_eq_true] at h
      rw [anyVideo, Bool.or_eq_true]
      rcases h with h | ⟨_, h⟩
      · exact Or.inl (hasVideo_of_shows h)
      · exact Or.inr (anyVideo_of_showsSequence h)

end

mutual

/-- What gives an audio has one. -/
theorem hasAudio_of_sounds : ∀ {scene : Scene τ π}, scene.sounds = true → scene.hasAudio = true
  | leaf _ kind _ _, h => h
  | container _ style items, h => by
      unfold sounds at h
      split at h
      · exact anyAudio_of_soundsSequence h
      · exact anyAudio_of_soundsParallel h

theorem anyAudio_of_soundsSequence : ∀ {items : List (Scene τ π)},
    soundsSequence items = true → anyAudio items = true
  | item :: rest, h => by
      simp only [soundsSequence, Bool.or_eq_true, Bool.and_eq_true] at h
      rw [anyAudio, Bool.or_eq_true]
      rcases h with h | ⟨_, h⟩
      · exact Or.inl (hasAudio_of_sounds h)
      · exact Or.inr (anyAudio_of_soundsSequence h)

theorem anyAudio_of_soundsParallel : ∀ {items : List (Scene τ π)},
    soundsParallel items = true → anyAudio items = true
  | item :: rest, h => by
      rw [soundsParallel, Bool.or_eq_true] at h
      rw [anyAudio, Bool.or_eq_true]
      rcases h with h | h
      · exact Or.inl (hasAudio_of_sounds h)
      · exact Or.inr (anyAudio_of_soundsParallel h)

end

/-- No sequence has a child after an open one. -/
def KeepsAll (scene : Scene τ π) : Prop :=
  ∀ tag style before item after, (container tag style (before ++ item :: after)).Within scene →
    style.order = .sequence → item.style.objectLength.isFit = true → after = []

theorem KeepsAll.item {tag : Tag} {style : Style τ π} {items : List (Scene τ π)} {item : Scene τ π}
    (h : (container tag style items).KeepsAll) (hi : item ∈ items) : item.KeepsAll :=
  fun tag style before item after hw => h tag style before item after (.item hi hw)

/-- The children of a sequence that are compiled: those up to the first open one. -/
def kept : List (Scene τ π) → List (Scene τ π)
  | [] => []
  | item :: rest => if item.style.objectLength.isFit then [item] else item :: kept rest

theorem showsSequence_eq_any (items : List (Scene τ π)) :
    showsSequence items = (kept items).any shows := by
  induction items with
  | nil => rw [showsSequence, kept, List.any_nil]
  | cons item rest ih =>
      rw [showsSequence, kept, ih]
      cases item.style.objectLength.isFit <;> simp

theorem soundsSequence_eq_any (items : List (Scene τ π)) :
    soundsSequence items = (kept items).any sounds := by
  induction items with
  | nil => rw [soundsSequence, kept, List.any_nil]
  | cons item rest ih =>
      rw [soundsSequence, kept, ih]
      cases item.style.objectLength.isFit <;> simp

theorem soundsParallel_eq_any (items : List (Scene τ π)) :
    soundsParallel items = items.any sounds := by
  induction items with
  | nil => rw [soundsParallel, List.any_nil]
  | cons item rest ih => rw [soundsParallel, ih, List.any_cons]

theorem kept_eq_self {items : List (Scene τ π)}
    (h : ∀ before item after, items = before ++ item :: after →
      item.style.objectLength.isFit = true → after = []) : kept items = items := by
  induction items with
  | nil => rfl
  | cons item rest ih =>
      rw [kept]
      split
      · next hfit => rw [h [] item rest rfl hfit]
      · rw [ih fun before i after he => h (item :: before) i after (by rw [he]; rfl)]

mutual

/-- Where no sequence leaves anything out, a node gives the streams that it bears. -/
theorem KeepsAll.streams_eq : ∀ {scene : Scene τ π}, scene.KeepsAll →
    scene.shows = scene.hasVideo ∧ scene.sounds = scene.hasAudio
  | leaf _ kind _ _, _ => ⟨rfl, rfl⟩
  | container tag style items, h => by
      obtain ⟨hshows, hsounds⟩ := streams_eq_all items fun i hi => h.item hi
      rw [shows, sounds, hasVideo, hasAudio]
      cases ho : style.order with
      | sequence =>
          have hkept : kept items = items := kept_eq_self fun before item after he hfit =>
            h tag style before item after (he ▸ .self _) ho hfit
          simp only [showsSequence_eq_any, soundsSequence_eq_any, hkept]
          exact ⟨hshows, hsounds⟩
      | parallel =>
          simp only [soundsParallel_eq_any]
          exact ⟨trivial, hsounds⟩

theorem streams_eq_all : ∀ items : List (Scene τ π), (∀ i ∈ items, i.KeepsAll) →
    items.any shows = anyVideo items ∧ items.any sounds = anyAudio items
  | [], _ => by simp [anyVideo, anyAudio]
  | item :: rest, h => by
      obtain ⟨hv, ha⟩ := KeepsAll.streams_eq (h item List.mem_cons_self)
      obtain ⟨hvs, has⟩ := streams_eq_all rest fun i hi => h i (List.mem_cons_of_mem _ hi)
      rw [List.any_cons, List.any_cons, anyVideo, anyAudio, hv, ha, hvs, has]
      exact ⟨rfl, rfl⟩

end

end Scene
end Montage
