import Montage.Proofs.Compile.Growth
import Montage.Proofs.Compile.Visits
import Montage.Proofs.Graph.Checked
import Montage.Proofs.Scene.Streams

/-!
# Standards for streams

A standard says what the picture of a node with a given canvas shall carry, and what every sound shall
carry. If the filters uphold a standard and the media of the leaves meet it, every node does.

**Input.** A scene whose leaves meet a standard.

**Algorithm.** Induction on what a scene denotes: whatever a container does to the streams of its
children, the pictures stand on its canvas and the sounds stay what they are.

**Results.**
* `Denotes.meets`: what a scene denotes meets the standard, and says which streams there are.
* `Film.meets`: so do the streams of a film.
* `Film.passes`: every filter of a film but the drains passes a check that is part of the standard.
-/

namespace Montage

variable {α τ π : Type}

/-- The canvas that the picture of a node stands on. -/
def Style.canvasKey [PixelCount π] (style : Style τ π) : CanvasKey π :=
  ⟨style.paddedWidth.pixelsOr 0, style.paddedHeight.pixelsOr 0,
    Color.orTransparent style.backgroundColor⟩

/-- What the pictures on a canvas and the sounds shall carry. -/
structure Standard (α π : Type) where
  picture : CanvasKey π → α → Prop
  sound : α → Prop

/-- Filters that change when a stream of a kind is seen or heard, and nothing else. -/
inductive Filter.Retimes : StreamKind → Filter τ π → Prop
  | trim (kind : StreamKind) (stop : τ) : Retimes kind (.trim kind stop)
  | loop (kind : StreamKind) : Retimes kind (.loop kind)
  | holdBefore (t : τ) (color : Color) : Retimes .video (.holdBefore t color)
  | holdAfter (t : τ) (color : Color) : Retimes .video (.holdAfter t color)
  | holdLast : Retimes .video .holdLast
  | delay (t : τ) : Retimes .audio (.delay t)
  | padAfter (t : τ) : Retimes .audio (.padAfter t)
  | padWhole (t : τ) : Retimes .audio (.padWhole t)
  | padForever : Retimes .audio .padForever

variable [Timescale τ]

/-- The filters that put streams together make streams that meet a standard of such. -/
structure Studio.Upholds (s : Studio α τ π) (std : Standard α π) : Prop where
  canvas : ∀ key, std.picture key (s.canvas key)
  retimedPicture : ∀ {f : Filter τ π} {key : CanvasKey π} {v : α}, f.Retimes .video →
    std.picture key v → std.picture key (s.apply f .video v)
  retimedSound : ∀ {f : Filter τ π} {a : α}, f.Retimes .audio → std.sound a →
    std.sound (s.apply f .audio a)
  overlay : ∀ {key key' : CanvasKey π} {base layer : α} (x y : π) (ending : OverlayEnd),
    std.picture key base → std.picture key' layer →
      std.picture key (s.filter (.overlay x y ending) [base, layer] .video)
  concatPictures : ∀ {key : CanvasKey π} {vs : List α}, vs ≠ [] → (∀ v ∈ vs, std.picture key v) →
    std.picture key (s.filter (.concat vs.length .video) vs .video)
  concatSounds : ∀ {as : List α}, as ≠ [] → (∀ a ∈ as, std.sound a) →
    std.sound (s.filter (.concat as.length .audio) as .audio)
  mix : ∀ {as : List α}, as ≠ [] → (∀ a ∈ as, std.sound a) →
    std.sound (s.filter (.mix as.length) as .audio)
  pair : ∀ {key : CanvasKey π} {v a : α}, std.picture key v → std.sound a →
    std.picture key (s.filter .pair [v, a] .video) ∧ std.sound (s.filter .pair [v, a] .audio)

/-- A content has the given streams, and they meet a standard. -/
structure Content.Meets (std : Standard α π) (key : CanvasKey π) (shown heard : Bool)
    (c : Content α) : Prop where
  video_isSome : c.video.isSome = shown
  audio_isSome : c.audio.isSome = heard
  video : ∀ v ∈ c.video, std.picture key v
  audio : ∀ a ∈ c.audio, std.sound a

section

variable {s : Studio α τ π} {std : Standard α π} {key : CanvasKey π} {shown heard : Bool}
  {c : Content α}

omit [Timescale τ] in
theorem Content.Meets.map (h : c.Meets std key shown heard) {onVideo onAudio : α → α}
    (hv : ∀ v, std.picture key v → std.picture key (onVideo v))
    (ha : ∀ a, std.sound a → std.sound (onAudio a)) :
    (c.map onVideo onAudio).Meets std key shown heard where
  video_isSome := by simpa [Content.map] using h.video_isSome
  audio_isSome := by simpa [Content.map] using h.audio_isSome
  video := by
    intro v' hv'
    obtain ⟨v, hm, rfl⟩ := Option.map_eq_some_iff.1 hv'
    exact hv v (h.video v hm)
  audio := by
    intro a' ha'
    obtain ⟨a, hm, rfl⟩ := Option.map_eq_some_iff.1 ha'
    exact ha a (h.audio a hm)

namespace Studio.Upholds

/-- Filters that only retime both streams. -/
theorem applyBoth (hu : s.Upholds std) (h : c.Meets std key shown heard)
    {onVideo onAudio : Filter τ π} (hv : onVideo.Retimes .video) (ha : onAudio.Retimes .audio) :
    (s.applyBoth onVideo onAudio c).Meets std key shown heard :=
  h.map (fun _ => hu.retimedPicture hv) fun _ => hu.retimedSound ha

theorem delay (hu : s.Upholds std) (h : c.Meets std key shown heard) (t : τ)
    (color : Option Color) : (s.delay t color c).Meets std key shown heard := by
  unfold Studio.delay
  split
  · exact h
  · exact hu.applyBoth h (.holdBefore _ _) (.delay _)

theorem append (hu : s.Upholds std) (h : c.Meets std key shown heard) (t : τ)
    (color : Option Color) : (s.append t color c).Meets std key shown heard := by
  unfold Studio.append
  split
  · exact h
  · exact hu.applyBoth h (.holdAfter _ _) (.padAfter _)

theorem padded (hu : s.Upholds std) (h : c.Meets std key shown heard) (style : Style τ π) :
    (s.padded style c).Meets std key shown heard := by
  have hdelay := hu.delay h style.timePaddingStart.secondsOrZero style.backgroundColor
  unfold Studio.padded
  simp only
  split
  · exact hdelay
  · exact hu.append hdelay _ _

theorem spaced (hu : s.Upholds std) (h : c.Meets std key shown heard) (style : Style τ π) :
    (s.spaced style c).Meets std key shown heard := by
  have hdelay := hu.delay h style.timeMarginStart.secondsOrZero none
  unfold Studio.spaced
  simp only
  split
  · exact hdelay
  · exact hu.append hdelay _ _

theorem extend (hu : s.Upholds std) (h : c.Meets std key shown heard) :
    (s.extend c).Meets std key shown heard :=
  hu.applyBoth h .holdLast .padForever

theorem conform (hu : s.Upholds std) (h : c.Meets std key shown heard) (t : τ)
    (color : Option Color) : (s.conform t color c).Meets std key shown heard :=
  h.map (fun _ hv => hu.retimedPicture (.trim _ _) (hu.retimedPicture (.holdAfter _ _) hv))
    fun _ ha => hu.retimedSound (.trim _ _) (hu.retimedSound (.padWhole _) ha)

theorem cut (hu : s.Upholds std) (h : c.Meets std key shown heard) (kind : MediaKind)
    (style : Style τ π) : (s.cut kind style c).Meets std key shown heard := by
  unfold Studio.cut
  split
  · next length _ =>
      simp only
      split
      · exact hu.applyBoth (hu.extend h) (.trim _ _) (.trim _ _)
      · exact hu.applyBoth h (.trim _ _) (.trim _ _)
  · split
    · exact hu.applyBoth h (.loop _) (.loop _)
    · exact h
  · exact h

end Studio.Upholds

namespace Reel

variable {r : Reel α τ}

/-- The segments stand on a canvas, and the tracks are sounds. -/
structure Meets (std : Standard α π) (key : CanvasKey π) (r : Reel α τ) : Prop where
  videos : ∀ v ∈ r.videos, std.picture key v
  audios : ∀ a ∈ r.audios, std.sound a

theorem meets_start : (start : Reel α τ).Meets std key := by
  constructor <;> simp [start]

/-- The segments of a kind that there are, joined end to end. -/
theorem concat_eq_some {kind : StreamKind} {as : List α} {a : α} (h : a ∈ concat s kind as) :
    a ∈ as ∨ as ≠ [] ∧ a = s.filter (.concat as.length kind) as kind := by
  match as, h with
  | [b], h => exact Or.inl (by simpa [concat, eq_comm] using h)
  | b :: b' :: rest, h => exact Or.inr (by simpa [concat, eq_comm] using h)

theorem isSome_concat (kind : StreamKind) (as : List α) :
    (concat s kind as).isSome = !as.isEmpty := by
  match as with
  | [] => rfl
  | [a] => rfl
  | a :: b :: rest => rfl

theorem Meets.finish (hu : s.Upholds std) (h : r.Meets std key) (container : Style τ π) :
    (r.finish s container).Meets std key (!r.videos.isEmpty) (!r.audios.isEmpty) := by
  have hjoined : (⟨concat s .video r.videos, concat s .audio r.audios⟩ : Content α).Meets std key
      (!r.videos.isEmpty) (!r.audios.isEmpty) := by
    refine ⟨isSome_concat _ _, isSome_concat _ _, ?_, ?_⟩
    · intro v hv
      rcases concat_eq_some hv with hm | ⟨hne, rfl⟩
      · exact h.videos v hm
      · exact hu.concatPictures hne h.videos
    · intro a ha
      rcases concat_eq_some ha with hm | ⟨hne, rfl⟩
      · exact h.audios a hm
      · exact hu.concatSounds hne h.audios
  have hclose : (r.close s container).Meets std key (!r.videos.isEmpty) (!r.audios.isEmpty) := by
    unfold close
    simp only
    split
    · exact hu.extend hjoined
    · refine hjoined.map (fun v hv => ?_) fun a ha => ?_
      · unfold closeVideo
        simp only
        split
        · exact hu.retimedPicture (.holdAfter _ _) hv
        · exact hv
      · unfold closeAudio
        simp only
        split
        · exact hu.retimedSound (.padAfter _) ha
        · exact ha
  unfold Reel.finish
  split
  · exact hu.conform hclose _ _
  · exact hclose

variable [PixelCount π]

theorem videos_add (container child : Style τ π) (r : Reel α τ) (c : Content α) :
    (r.add s container child c).videos = r.videos ++
      (c.video.map (segment s container child (r.videoGap + r.lead child))).toList := by
  obtain ⟨video, audio⟩ := c
  cases video <;> cases audio <;> simp [add, addVideo, addAudio]

theorem audios_add (container child : Style τ π) (r : Reel α τ) (c : Content α) :
    (r.add s container child c).audios = r.audios ++
      (c.audio.map (track s (r.audioGap + r.lead child))).toList := by
  obtain ⟨video, audio⟩ := c
  cases video <;> cases audio <;> simp [add, addVideo, addAudio]

/-- A picture on the canvas of a sequence stands on that canvas. -/
theorem picture_segment (hu : s.Upholds std) (container child : Style τ π) (gap : τ) {v : α}
    (hv : std.picture key v) :
    std.picture container.canvasKey (segment s container child gap v) := by
  have hplaced : ∀ x y, std.picture container.canvasKey
      (s.filter (.overlay x y .shortest) [s.board container, v] .video) :=
    fun x y => hu.overlay x y .shortest (hu.canvas container.canvasKey) hv
  unfold segment
  simp only
  split
  · exact hu.retimedPicture (.holdBefore _ _) (hplaced _ _)
  · exact hplaced _ _

omit [PixelCount π] in
theorem sound_track (hu : s.Upholds std) (gap : τ) {a : α} (ha : std.sound a) :
    std.sound (track s gap a) := by
  unfold track
  split
  · exact hu.retimedSound (.delay _) ha
  · exact ha

/-- A child is added whose streams meet the standard. -/
theorem Meets.add (hu : s.Upholds std) (container child : Style τ π)
    (h : r.Meets std container.canvasKey) (hc : c.Meets std key shown heard) :
    (r.add s container child c).Meets std container.canvasKey ∧
      (r.add s container child c).videos.isEmpty = (r.videos.isEmpty && !shown) ∧
      (r.add s container child c).audios.isEmpty = (r.audios.isEmpty && !heard) := by
  rw [← hc.video_isSome, ← hc.audio_isSome, videos_add, audios_add]
  refine ⟨⟨?_, ?_⟩, ?_, ?_⟩
  · intro v hv
    rw [videos_add, List.mem_append, Option.mem_toList] at hv
    rcases hv with hv | hv
    · exact h.videos v hv
    · obtain ⟨w, hw, rfl⟩ := Option.map_eq_some_iff.1 hv
      exact picture_segment hu container child _ (hc.video w hw)
  · intro a ha
    rw [audios_add, List.mem_append, Option.mem_toList] at ha
    rcases ha with ha | ha
    · exact h.audios a ha
    · obtain ⟨b, hb, rfl⟩ := Option.map_eq_some_iff.1 ha
      exact sound_track hu _ (hc.audio b hb)
  · cases c.video <;> simp
  · cases c.audio <;> simp

end Reel

variable [PixelCount π]

namespace Blend

variable {b : Blend α π}

/-- The layers stand on a canvas, and the tracks are sounds. -/
structure Meets (std : Standard α π) (key : CanvasKey π) (b : Blend α π) : Prop where
  video : ∀ v ∈ b.video, std.picture key v
  tracks : ∀ a ∈ b.tracks, std.sound a

theorem meets_start (hu : s.Upholds std) (container : Style τ π) (visible : Bool) :
    (start s container visible).Meets std container.canvasKey ∧
      (start s container visible).video.isSome = visible := by
  have hboard : std.picture container.canvasKey (s.board container) := hu.canvas _
  unfold start
  cases visible with
  | false => exact ⟨by constructor <;> simp, rfl⟩
  | true =>
      refine ⟨⟨?_, by simp⟩, rfl⟩
      rintro v ⟨⟩
      split
      · exact hu.retimedPicture (.trim _ _) hboard
      · exact hboard

/-- A child is added whose streams meet the standard; what can be seen needs a canvas. -/
theorem Meets.add (hu : s.Upholds std) {container : Style τ π} (child : Style τ π)
    (h : b.Meets std container.canvasKey) (hc : c.Meets std key shown heard)
    (hv : b.video.isSome = false → shown = false) :
    (b.add s container child c).Meets std container.canvasKey ∧
      (b.add s container child c).video.isSome = b.video.isSome ∧
      (b.add s container child c).tracks.isEmpty = (b.tracks.isEmpty && !heard) := by
  have htracks : ∀ a ∈ b.tracks ++ c.audio.toList, std.sound a := by
    intro a ha
    rw [List.mem_append, Option.mem_toList] at ha
    exact ha.elim (h.tracks a) (hc.audio a)
  have hempty : (b.tracks ++ c.audio.toList).isEmpty = (b.tracks.isEmpty && !heard) := by
    rw [← hc.audio_isSome]
    cases c.audio <;> simp
  unfold Blend.add
  cases hvideo : c.video with
  | none => exact ⟨⟨h.video, htracks⟩, rfl, hempty⟩
  | some layer =>
      cases hbase : b.video with
      | none =>
          have hshown := hc.video_isSome
          rw [hvideo, hv (by rw [hbase]; rfl)] at hshown
          cases hshown
      | some base =>
          refine ⟨⟨?_, htracks⟩, rfl, hempty⟩
          rintro v ⟨⟩
          exact hu.overlay _ _ .pass (h.video base hbase) (hc.video layer hvideo)

omit [PixelCount π] in
theorem Meets.finish (hu : s.Upholds std) (h : b.Meets std key) (container : Style τ π) :
    (b.finish s container).Meets std key b.video.isSome (!b.tracks.isEmpty) := by
  have hfill : ∀ a, std.sound a → std.sound (fill s container a) := by
    intro a ha
    unfold fill
    split
    · exact hu.retimedSound (.trim _ _) (hu.retimedSound (.padWhole _) ha)
    · exact hu.retimedSound .padForever ha
  have hmix : (mix s b.tracks).isSome = !b.tracks.isEmpty ∧ ∀ a ∈ mix s b.tracks, std.sound a := by
    have htracks := h.tracks
    match b.tracks, htracks with
    | [], _ => exact ⟨rfl, by simp [mix]⟩
    | [a], ht => exact ⟨rfl, by simpa [mix] using ht⟩
    | a :: a' :: rest, ht =>
        refine ⟨rfl, ?_⟩
        rintro _ ⟨⟩
        exact hu.mix (List.cons_ne_nil _ _) ht
  refine ⟨rfl, by simpa [Blend.finish] using hmix.1, h.video, ?_⟩
  intro a' ha'
  obtain ⟨a, ha, rfl⟩ := Option.map_eq_some_iff.1 ha'
  exact hfill a (hmix.2 a ha)

end Blend

/-- What a leaf of a scene denotes at its natural length meets a standard. -/
def Scene.LeavesMeet (s : Studio α τ π) (std : Standard α π) (scene : Scene τ π) : Prop :=
  ∀ tag kind locator style, (Scene.leaf tag kind locator style).Within scene →
    ∀ c, Leaf.Natural s style kind locator c →
      c.Meets std style.canvasKey kind.hasVideo kind.hasAudio

theorem Scene.LeavesMeet.item {tag : Tag} {style : Style τ π} {items : List (Scene τ π)}
    {item : Scene τ π} (h : (Scene.container tag style items).LeavesMeet s std) (hi : item ∈ items) :
    item.LeavesMeet s std :=
  fun tag kind locator style hw => h tag kind locator style (.item hi hw)

mutual

/-- What a scene denotes meets the standard, and has the streams that its compilation gives. -/
theorem Denotes.meets (hu : s.Upholds std) : ∀ {scene : Scene τ π} {c : Content α},
    Denotes s scene c → scene.LeavesMeet s std →
      c.Meets std scene.style.canvasKey scene.shows scene.sounds
  | _, _, .leaf hn, hl => hu.padded (hu.cut (hl _ _ _ _ (.self _) _ hn) _ _) _
  | _, _, @Denotes.sequence _ _ _ _ _ _ tag style items r ho h, hl => by
      obtain ⟨hr, hvideos, haudios⟩ := h.meets hu (fun i hi => hl.item hi) Reel.meets_start
      have hfinish := hu.padded (hr.finish hu style) style
      rw [hvideos, haudios] at hfinish
      simpa [Scene.style, Scene.shows, Scene.sounds, ho, Reel.start] using hfinish
  | _, _, @Denotes.parallel _ _ _ _ _ _ tag style items b ho h, hl => by
      obtain ⟨hstart, hvisible⟩ := Blend.meets_start hu style (Scene.anyVideo items)
      obtain ⟨hb, hvideo, htracks⟩ := h.meets hu (fun i hi => hl.item hi) hstart
        (by rw [hvisible]; exact id)
      have hfinish := hu.padded (hb.finish hu style) style
      rw [hvideo, hvisible, htracks] at hfinish
      simpa [Scene.style, Scene.shows, Scene.sounds, ho, Blend.start] using hfinish

theorem DenotesSequence.meets (hu : s.Upholds std) : ∀ {container : Style τ π} {r r' : Reel α τ}
    {items : List (Scene τ π)}, DenotesSequence s container r items r' →
      (∀ i ∈ items, i.LeavesMeet s std) → r.Meets std container.canvasKey →
        r'.Meets std container.canvasKey ∧
          r'.videos.isEmpty = (r.videos.isEmpty && !Scene.showsSequence items) ∧
          r'.audios.isEmpty = (r.audios.isEmpty && !Scene.soundsSequence items)
  | _, _, _, _, .done, _, hr => ⟨hr, by simp [Scene.showsSequence], by simp [Scene.soundsSequence]⟩
  | container, _, _, _, .endless hc he, hl, hr => by
      have hm := hc.meets hu (hl _ List.mem_cons_self)
      have hfit : Span.isFit _ = true := he
      obtain ⟨hr', hvideos, haudios⟩ := hr.add hu container _ hm
      exact ⟨hr', by simp [hvideos, Scene.showsSequence, hfit],
        by simp [haudios, Scene.soundsSequence, hfit]⟩
  | container, _, _, _, .next hc he h, hl, hr => by
      have hm := hc.meets hu (hl _ List.mem_cons_self)
      have hfit : Span.isFit _ = false := he
      obtain ⟨hr', hvideos, haudios⟩ := hr.add hu container _ hm
      obtain ⟨hr'', hvideos', haudios'⟩ :=
        h.meets hu (fun i hi => hl i (List.mem_cons_of_mem _ hi)) hr'
      exact ⟨hr'', by simp [hvideos', hvideos, Scene.showsSequence, hfit, Bool.and_assoc],
        by simp [haudios', haudios, Scene.soundsSequence, hfit, Bool.and_assoc]⟩

theorem DenotesParallel.meets (hu : s.Upholds std) : ∀ {container : Style τ π} {b b' : Blend α π}
    {items : List (Scene τ π)}, DenotesParallel s container b items b' →
      (∀ i ∈ items, i.LeavesMeet s std) → b.Meets std container.canvasKey →
        (b.video.isSome = false → Scene.anyVideo items = false) →
          b'.Meets std container.canvasKey ∧ b'.video.isSome = b.video.isSome ∧
            b'.tracks.isEmpty = (b.tracks.isEmpty && !Scene.soundsParallel items)
  | _, _, _, _, .done, _, hb, _ => ⟨hb, rfl, by simp [Scene.soundsParallel]⟩
  | container, b, _, _, @DenotesParallel.next _ _ _ _ _ _ _ _ _ item rest c hc h, hl, hb, hn => by
      have hm := hu.spaced (hc.meets hu (hl _ List.mem_cons_self)) item.style
      have hblank : b.video.isSome = false → item.shows = false ∧ Scene.anyVideo rest = false := by
        intro hnone
        have hany := hn hnone
        rw [Scene.anyVideo, Bool.or_eq_false_iff] at hany
        refine ⟨?_, hany.2⟩
        rw [← Bool.not_eq_true]
        intro hshows
        rw [Scene.hasVideo_of_shows hshows] at hany
        cases hany.1
      obtain ⟨hb', hvideo, htracks⟩ := hb.add hu item.style hm fun hnone => (hblank hnone).1
      obtain ⟨hb'', hvideo', htracks'⟩ := h.meets hu
        (fun i hi => hl i (List.mem_cons_of_mem _ hi)) hb' fun hnone => (hblank (hvideo ▸ hnone)).2
      exact ⟨hb'', hvideo'.trans hvideo,
        by simp [htracks', htracks, Scene.soundsParallel, Bool.and_assoc]⟩

end

/-- The streams of every node that is compiled meet the standard. -/
theorem Visits.meets (hu : s.Upholds std) {root : Scene τ π} {call : Call τ π}
    (h : Visits root (.start s.frame s.sampleRate) call) (hheard : root.Heard s)
    (hl : root.LeavesMeet s std) :
    ∃ c : Content α, c.Meets std call.node.style.canvasKey call.node.shows call.node.sounds ∧
      call.streams.Carry s.toReading call.after.graph c := by
  obtain ⟨c, hc, hcarry⟩ := h.denotes hheard
  exact ⟨c, hc.meets hu fun tag kind locator style hw =>
    hl tag kind locator style (hw.trans h.within), hcarry⟩

namespace Film

open Compile

/-- The canvas of the screen. -/
def screenKey (resolution : Resolution) (color : Option Color) : CanvasKey π :=
  ⟨PixelCount.ofInt resolution.width, PixelCount.ofInt resolution.height,
    Color.orTransparent color⟩

/-- On the screen the picture stands on the canvas of the screen. -/
theorem meets_staged (hu : s.Upholds std) (h : c.Meets std key shown heard) (style : Style τ π)
    (resolution : Resolution) :
    (s.paired (s.staged style resolution c)).Meets std
      (screenKey resolution style.backgroundColor) shown heard := by
  have hshown : (⟨c.video.map (s.onScreen style resolution), c.audio⟩ : Content α).Meets std
      (screenKey resolution style.backgroundColor) shown heard := by
    refine ⟨by simpa using h.video_isSome, h.audio_isSome, ?_, h.audio⟩
    intro v' hv'
    obtain ⟨v, hv, rfl⟩ := Option.map_eq_some_iff.1 hv'
    exact hu.overlay _ _ .shortest (hu.canvas _) (h.video v hv)
  have hstaged : (s.staged style resolution c).Meets std
      (screenKey resolution style.backgroundColor) shown heard :=
    hu.append (hu.delay hshown _ _) _ _
  generalize s.staged style resolution c = d at hstaged
  obtain ⟨video, audio⟩ := d
  cases video with
  | none => exact hstaged
  | some v =>
      cases audio with
      | none => exact hstaged
      | some a =>
          obtain ⟨hv, ha⟩ := hu.pair (hstaged.video v rfl) (hstaged.audio a rfl)
          refine ⟨hstaged.video_isSome, hstaged.audio_isSome, ?_, ?_⟩
          · rintro _ ⟨⟩
            exact hv
          · rintro _ ⟨⟩
            exact ha

/-- The streams of a film meet the standard. -/
theorem meets (hu : s.Upholds std) {root : Scene τ π} {film : Film τ π}
    (h : ofScene root s.frame s.sampleRate = .ok film) (hheard : root.Heard s)
    (hl : root.LeavesMeet s std) :
    (∀ p ∈ film.video, ∃ v, film.graph.value s.toReading p = some v ∧
      std.picture (screenKey s.frame.resolution root.style.backgroundColor) v) ∧
    ∀ p ∈ film.audio, ∃ a, film.graph.value s.toReading p = some a ∧ std.sound a := by
  obtain ⟨c, hd, hcarry⟩ := denotes h hheard
  have hm := meets_staged hu (hd.meets hu hl) root.style s.frame.resolution
  constructor
  · intro p hp
    obtain ⟨v, hv, hvalue⟩ := hcarry.value_video hp
    exact ⟨v, hvalue, hm.video v hv⟩
  · intro p hp
    obtain ⟨a, ha, hvalue⟩ := hcarry.value_audio hp
    exact ⟨a, hvalue, hm.audio a ha⟩

end Film

open Film in
/-- What the streams of a node carry they carry in the film. -/
theorem Visits.grows_film {root : Scene τ π} {film : Film τ π} {call : Call τ π}
    (h : Visits root (.start s.frame s.sampleRate) call)
    (hfilm : ofScene root s.frame s.sampleRate = .ok film) (hheard : root.Heard s) :
    call.after.graph.Grows s.toReading film.graph := by
  obtain ⟨st, w, c, out, hrun, rfl, _, _, hw⟩ := exists_run hfilm hheard
  exact ((h.extends_film hrun).grows hw.linear).trans hw.toSound.finish.2.1

namespace Workshop

omit [PixelCount π] [Timescale τ] in
/-- Draining adds nothing but drains. -/
theorem mem_stages_drain {kind : StreamKind} {pads : List Pad} {g : Graph (Filter τ π)}
    {stage : Stage (Filter τ π)} (h : stage ∈ (drain kind g pads).stages) :
    stage ∈ g.stages ∨ ∃ p, stage = ⟨[p], .sink kind, []⟩ := by
  induction pads generalizing g with
  | nil => exact Or.inl h
  | cons p pads ih =>
      rcases ih h with h | h
      · rcases List.mem_append.1 h with h | h
        · exact Or.inl h
        · exact Or.inr ⟨p, List.mem_singleton.1 h⟩
      · exact Or.inr h

omit [PixelCount π] [Timescale τ] in
theorem mem_stages_finish {w : Workshop τ π} {stage : Stage (Filter τ π)}
    (h : stage ∈ w.finish.stages) :
    stage ∈ w.graph.stages ∨ ∃ kind p, stage = ⟨[p], .sink kind, []⟩ := by
  rcases mem_stages_drain h with h | ⟨p, h⟩
  · rcases mem_stages_drain h with h | ⟨p, h⟩
    · exact Or.inl h
    · exact Or.inr ⟨.video, p, h⟩
  · exact Or.inr ⟨.audio, p, h⟩

end Workshop

end

section

variable [PixelCount π] {s : Studio (α × Prop) τ π} {r : Reading α τ π}
  {fits : Filter τ π → List α → Prop}

/-- A standard of streams that come from filters that pass a check. -/
structure Standard.Checks (std : Standard (α × Prop) π) : Prop where
  picture : ∀ key v, std.picture key v → v.2
  sound : ∀ a, std.sound a → a.2

variable {std : Standard (α × Prop) π}

omit [PixelCount π] in
/-- The spares of a workshop come from filters that pass the check. -/
theorem Workshop.Sound.passes_spare (hs : s.toReading = r.checked fits) (hu : s.Upholds std)
    (hc : std.Checks) {w : Workshop τ π} {free : Multiset Pad} (h : w.Sound s free) {p : Pad}
    (hp : p ∈ w.sparePads) : w.graph.Passes r fits p := by
  have hstream : ∀ key kind, (s.stream key kind).2 := by
    intro key kind
    unfold Studio.stream
    rw [hs]
    trivial
  have hpass : ∀ a : α × Prop, a.2 → w.graph.value s.toReading p = some a →
      w.graph.Passes r fits p := by
    intro a ha hv
    rw [hs] at hv
    exact ⟨a.1, by rw [hv, ← eq_true ha]⟩
  rcases Multiset.mem_add.1 hp with hp | hp
  · obtain ⟨e, he, rfl⟩ := List.mem_map.1 (Multiset.mem_coe.1 hp)
    exact hpass _ (hc.picture _ _ (hu.canvas e.1)) (h.canvases e he)
  · obtain ⟨e, he, hp⟩ := List.mem_flatMap.1 (Multiset.mem_coe.1 hp)
    have hfits := h.sources e he
    rw [Spares.pads, List.mem_append, Option.mem_toList, Option.mem_toList] at hp
    rcases hp with hp | hp
    · exact hpass _ (hstream _ _) (hfits.video p hp)
    · exact hpass _ (hstream _ _) (hfits.audio p hp)

open Compile in
/-- Every filter of a film passes the check, but for the drains. -/
theorem Film.passes (hs : s.toReading = r.checked fits) (hu : s.Upholds std) (hc : std.Checks)
    {root : Scene τ π} {film : Film τ π} (h : ofScene root s.frame s.sampleRate = .ok film)
    (hheard : root.Heard s) (hl : root.LeavesMeet s std) :
    ∀ stage ∈ film.graph.stages, (∃ kind p, stage = ⟨[p], .sink kind, []⟩) ∨
      ∃ as, stage.inputs.mapM (film.graph.value r) = some as ∧ fits stage.filter as := by
  obtain ⟨st, w, c, out, hrun, rfl, hd, hout, hw⟩ := exists_run h hheard
  have hm := meets_staged hu (hd.meets hu hl) root.style s.frame.resolution
  have hheld : ∀ x ∈ out, x.2.2 := by
    obtain ⟨_, _, ⟨v, _, hv, rfl⟩, ⟨a, _, ha, rfl⟩, rfl⟩ := hout
    intro x hx
    simp only [Multiset.mem_add, Multiset.mem_coe, Option.mem_toList] at hx
    rcases hx with rfl | rfl
    · exact hc.picture _ _ (hm.video _ hv)
    · exact hc.sound _ (hm.audio _ ha)
  have hfree : ∀ p ∈ out.map Prod.fst + w.sparePads, w.graph.Passes r fits p := by
    intro p hp
    rcases Multiset.mem_add.1 hp with hp | hp
    · obtain ⟨x, hx, rfl⟩ := Multiset.mem_map.1 hp
      have hv := hw.values x hx
      rw [hs] at hv
      exact ⟨x.2.1, by rw [hv, ← eq_true (hheld x hx)]⟩
    · exact hw.toSound.passes_spare hs hu hc hp
  have hoffering : ∀ s ∈ w.graph.stages, s.outputs ≠ [] :=
    (adds_streams root _ _ w st hrun).offers (by simp [Workshop.start, Graph.empty])
  have hgrows : w.graph.Grows r w.finish := .of_checked (hs ▸ hw.toSound.finish.2.1)
  intro stage hstage
  rcases Workshop.mem_stages_finish hstage with hstage | hdrain
  · obtain ⟨as, has, hfits⟩ := hw.linear.passes hoffering hfree stage hstage
    exact Or.inr ⟨as, Graph.mapM_value_grows hgrows has, hfits⟩
  · exact Or.inl hdrain

end

end Montage
