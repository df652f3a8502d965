import Montage.Media.Cache
import Montage.Proofs.Scene.Nodes

/-!
# What is remembered of media

While a scene is built, what was found for a file is remembered, and every leaf that names the file
again is told the same.

**Input.** Computations that probe files.

**Algorithm.** Memory only grows. What a leaf was told when it was styled is still remembered when the
whole scene is built.

**Results.**
* `Probing.Learns.bind`: what is learnt by a step stays known to the steps after it.
* `Scene.sameStreams_facts`: all leaves of a file know the same about its streams.
-/

namespace Montage

variable {τ π : Type}

namespace Path

theorem same_iff {p q : Path} : p.same q = true ↔ p.components = q.components := by
  simp [same]

end Path

namespace ProbeCache

theorem find?_same (c : ProbeCache τ) {p q : Path} (h : p.same q = true) : c.find? p = c.find? q := by
  rw [Path.same_iff] at h
  simp only [find?, Path.same, h]

/-- All that is remembered stays so. -/
def Extends (c c' : ProbeCache τ) : Prop :=
  ∀ path info, c.find? path = some info → c'.find? path = some info

theorem Extends.refl (c : ProbeCache τ) : c.Extends c :=
  fun _ _ h => h

theorem Extends.trans {c c' c'' : ProbeCache τ} (h : c.Extends c') (h' : c'.Extends c'') :
    c.Extends c'' :=
  fun path info hc => h' path info (h path info hc)

/-- A file that was found is remembered. -/
theorem extends_get {probe : Probe τ} {c c' : ProbeCache τ} {path : Path} {info : MediaInfo τ}
    (h : get probe c path = (.ok info, c')) : c.Extends c' ∧ c'.find? path = some info := by
  unfold get at h
  split at h
  · next hfound =>
      cases h
      exact ⟨.refl c, hfound⟩
  · next hunknown =>
      simp only at h
      split at h
      · cases h
        constructor
        · intro q found hq
          -- a file that was remembered is not the one that was asked for
          have hne : path.same q = false := by
            rw [← Bool.not_eq_true]
            intro hsame
            rw [c.find?_same hsame, hq] at hunknown
            cases hunknown
          simpa [find?, hne] using hq
        · simp [find?, Path.same]
      · cases h

end ProbeCache

namespace Probing

variable {α β : Type}

/-- A computation forgets nothing, and what it gives has a property that refers to what is then
remembered. -/
def Learns (c : Probing τ α) (given : ProbeCache τ → α → Prop) : Prop :=
  ∀ cache a cache', c cache = (.ok a, cache') → cache.Extends cache' ∧ given cache' a

/-- A property of what is remembered that holds on when more is remembered. -/
def Lasting (given : ProbeCache τ → α → Prop) : Prop :=
  ∀ c c' a, c.Extends c' → given c a → given c' a

theorem Learns.pure {a : α} {given : ProbeCache τ → α → Prop} (h : ∀ c, given c a) :
    Learns (Pure.pure a) given := by
  intro cache a' cache' h'
  cases h'
  exact ⟨.refl cache, h cache⟩

theorem Learns.throw (f : Failure) {given : ProbeCache τ → α → Prop} :
    Learns (MonadExcept.throw f : Probing τ α) given := by
  intro cache a cache' h
  cases h

theorem bind_eq_ok {c : Probing τ α} {f : α → Probing τ β} {cache cache'' : ProbeCache τ} {b : β}
    (h : (c >>= f) cache = (.ok b, cache'')) :
    ∃ a cache', c cache = (.ok a, cache') ∧ f a cache' = (.ok b, cache'') := by
  rcases hr : c cache with ⟨e | a, cache'⟩
  · have hbad : (c >>= f) cache = (.error e, cache') := by
      simp [Bind.bind, ExceptT.bind, ExceptT.mk, StateT.bind, ExceptT.bindCont, hr]
      rfl
    rw [hbad] at h
    cases h
  · have hgood : (c >>= f) cache = f a cache' := by
      simp [Bind.bind, ExceptT.bind, ExceptT.mk, StateT.bind, ExceptT.bindCont, hr]
    exact ⟨a, cache', rfl, hgood ▸ h⟩

/-- What a step has learnt is known to the step after it. -/
theorem Learns.bind {c : Probing τ α} {f : α → Probing τ β} {given : ProbeCache τ → α → Prop}
    {given' : ProbeCache τ → β → Prop} (h : Learns c given) (hl : Lasting given)
    (hf : ∀ a, Learns (f a) fun cache b => given cache a → given' cache b) :
    Learns (c >>= f) given' := by
  intro cache b cache'' hb
  obtain ⟨a, cache', ha, hb⟩ := bind_eq_ok hb
  obtain ⟨hext, hgiven⟩ := h cache a cache' ha
  obtain ⟨hext', hgiven'⟩ := hf a cache' b cache'' hb
  exact ⟨hext.trans hext', hgiven' (hl _ _ _ hext' hgiven)⟩

theorem learns_info (probe : Probe τ) (path : Path) :
    Learns (Probing.info probe path) fun cache info => cache.find? path = some info :=
  fun _ _ _ h => ProbeCache.extends_get h

end Probing

/-- Two styles know the same about the streams of their media. -/
structure SourceFacts.SameStreams (a b : SourceFacts τ π) : Prop where
  width : a.width = b.width
  height : a.height = b.height
  hasAudio : a.hasAudio = b.hasAudio
  audioSystem : a.audioSystem = b.audioSystem

section

variable [PixelCount π]

/-- What a leaf of media knows was told by what is remembered of its file. -/
def Scene.IsTold (cache : ProbeCache τ) (kind : MediaKind) (path : Path) (style : Style τ π) : Prop :=
  ∃ info, cache.find? path = some info ∧ info.facts kind = .ok style.source

theorem MediaInfo.facts_eq_ok {info : MediaInfo τ} {kind : MediaKind} {known : SourceFacts τ π}
    (h : info.facts kind = .ok known) :
    info.missing? kind = none ∧
      known =
        { duration := if kind.hasDuration then info.duration else none
          width := info.video.map fun v => PixelCount.ofInt v.width
          height := info.video.map fun v => PixelCount.ofInt v.height
          hasAudio := info.audio.isSome
          audioSystem := info.audio.bind fun a => AudioSystem.ofChannels? a.layout a.channels } := by
  unfold MediaInfo.facts at h
  split at h
  · cases h
  · next hm =>
      cases h
      exact ⟨hm, rfl⟩

theorem MediaInfo.isSome_video {info : MediaInfo τ} {kind : MediaKind}
    (hm : info.missing? kind = none) (hv : kind.hasVideo = true) (ht : kind ≠ .text) :
    info.video.isSome = true := by
  cases hi : info.video with
  | some v => rfl
  | none =>
      cases kind with
      | video => cases hd : info.duration <;> simp [missing?, hi, hd] at hm
      | audio => cases hv
      | image => simp [missing?, hi] at hm
      | text => exact absurd rfl ht

theorem MediaInfo.isSome_audio {info : MediaInfo τ} (hm : info.missing? .audio = none) :
    info.audio.isSome = true := by
  cases hi : info.audio with
  | some a => rfl
  | none => cases hd : info.duration <;> simp [missing?, hi, hd] at hm

/-- What is told of a file does not depend on how its name is written, nor, the duration apart, on
the kind of the leaf. -/
theorem Scene.IsTold.sameStreams {cache : ProbeCache τ} {kind kind' : MediaKind} {p q : Path}
    {style style' : Style τ π} (h : IsTold cache kind p style) (h' : IsTold cache kind' q style')
    (hs : p.same q = true) : style.source.SameStreams style'.source := by
  obtain ⟨info, hfind, hfacts⟩ := h
  obtain ⟨info', hfind', hfacts'⟩ := h'
  rw [cache.find?_same hs, hfind'] at hfind
  obtain rfl := Option.some.inj hfind
  rw [(MediaInfo.facts_eq_ok hfacts).2, (MediaInfo.facts_eq_ok hfacts').2]
  exact ⟨rfl, rfl, rfl, rfl⟩

/-- A leaf has what its kind needs: a picture for what is seen, a sound for what is only heard. -/
theorem Scene.IsTold.needs {cache : ProbeCache τ} {kind : MediaKind} {path : Path}
    {style : Style τ π} (h : IsTold cache kind path style) :
    (kind.hasVideo = true → kind ≠ .text →
        ∃ w h, style.source.width = some w ∧ style.source.height = some h) ∧
      (kind = .audio → style.source.hasAudio = true) := by
  obtain ⟨info, _, hfacts⟩ := h
  obtain ⟨hm, hsource⟩ := MediaInfo.facts_eq_ok hfacts
  rw [hsource]
  constructor
  · intro hv ht
    obtain ⟨v, hv⟩ := Option.isSome_iff_exists.1 (MediaInfo.isSome_video hm hv ht)
    exact ⟨_, _, by rw [hv]; rfl, by rw [hv]; rfl⟩
  · rintro rfl
    exact MediaInfo.isSome_audio hm

end

namespace Scene

mutual

/-- The files of the leaves, in order, with what is known about them. -/
def media : Scene τ π → List (Path × SourceFacts τ π)
  | container _ _ items => mediaAll items
  | leaf _ _ (.path path) style => [(path, style.source)]
  | leaf _ _ (.text _) _ => []

def mediaAll : List (Scene τ π) → List (Path × SourceFacts τ π)
  | [] => []
  | s :: rest => s.media ++ mediaAll rest

end

/-- What a scene knows about a file. -/
def facts (scene : Scene τ π) (path : Path) : SourceFacts τ π :=
  ((scene.media.find? fun e => e.1.same path).map Prod.snd).getD .unknown

theorem facts_same (scene : Scene τ π) {p q : Path} (h : p.same q = true) :
    scene.facts p = scene.facts q := by
  rw [Path.same_iff] at h
  simp only [facts, Path.same, h]

theorem mem_mediaAll {items : List (Scene τ π)} {e : Path × SourceFacts τ π} :
    e ∈ mediaAll items ↔ ∃ i ∈ items, e ∈ i.media := by
  induction items with
  | nil => simp [mediaAll]
  | cons s rest ih => simp [mediaAll, ih]

/-- The files of a scene are those of its leaves. -/
theorem mem_media_of_within {scene node : Scene τ π} (h : node.Within scene) {tag : Tag}
    {kind : MediaKind} {path : Path} {style : Style τ π}
    (hn : node = leaf tag kind (.path path) style) : (path, style.source) ∈ scene.media := by
  induction h with
  | self =>
      subst hn
      simp [media]
  | item hi _ ih =>
      rw [media, mem_mediaAll]
      exact ⟨_, hi, ih⟩

mutual

theorem within_of_mem_media : ∀ {scene : Scene τ π} {e : Path × SourceFacts τ π}, e ∈ scene.media →
    ∃ tag kind style, (leaf tag kind (.path e.1) style).Within scene ∧ style.source = e.2
  | container _ _ items, e, h => by
      rw [media] at h
      obtain ⟨i, hi, tag, kind, style, hw, hs⟩ := within_of_mem_mediaAll h
      exact ⟨tag, kind, style, .item hi hw, hs⟩
  | leaf tag kind (.path path) style, e, h => by
      rw [media, List.mem_singleton] at h
      subst h
      exact ⟨tag, kind, style, .self _, rfl⟩
  | leaf _ _ (.text _) _, e, h => by
      simp [media] at h

theorem within_of_mem_mediaAll : ∀ {items : List (Scene τ π)} {e : Path × SourceFacts τ π},
    e ∈ mediaAll items → ∃ i ∈ items, ∃ tag kind style,
      (leaf tag kind (.path e.1) style).Within i ∧ style.source = e.2
  | [], e, h => by
      simp [mediaAll] at h
  | s :: rest, e, h => by
      rw [mediaAll, List.mem_append] at h
      rcases h with h | h
      · exact ⟨s, List.mem_cons_self, within_of_mem_media h⟩
      · obtain ⟨i, hi, hw⟩ := within_of_mem_mediaAll h
        exact ⟨i, List.mem_cons_of_mem _ hi, hw⟩

end

/-- Where all leaves were told the same memory, the scene knows of a file what each of its leaves
does. -/
theorem sameStreams_facts [PixelCount π] {root : Scene τ π} {cache : ProbeCache τ}
    (h : ∀ tag kind path style, (leaf tag kind (.path path) style).Within root →
      IsTold cache kind path style) {tag : Tag} {kind : MediaKind} {path : Path}
    {style : Style τ π} (hw : (leaf tag kind (.path path) style).Within root) :
    (root.facts path).SameStreams style.source := by
  have hmem := mem_media_of_within hw rfl
  have hsome : (root.media.find? fun e => e.1.same path).isSome = true := by
    rw [List.find?_isSome]
    exact ⟨_, hmem, by simp [Path.same]⟩
  obtain ⟨e, he⟩ := Option.isSome_iff_exists.1 hsome
  have hsame : e.1.same path = true := by
    simpa using List.find?_some he
  obtain ⟨tag', kind', style', hw', hsource⟩ := within_of_mem_media (List.mem_of_find?_eq_some he)
  have hfacts : root.facts path = style'.source := by
    rw [facts, he, hsource]
    rfl
  rw [hfacts]
  exact (h _ _ _ _ hw').sameStreams (h _ _ _ _ hw) hsame

end Scene
end Montage
