import Montage.Proofs.Compile.Growth
import Montage.Proofs.Layout.Room

/-!
# Canvases

A film never fails for want of a canvas if what can be seen has room.

**Input.** A scene in whose nodes all that can be seen has a box with room, and the frame of its
document.

**Algorithm.** Canvases are only asked for on behalf of nodes that can be seen: a stream that is a
video comes from such a node. So every step of a compilation is followed with what it answers, a
video only if there is something to be seen.

**Results.**
* `Film.affords_streams`: no step of a film fails for want of a canvas.
* `Document.canvases_of_losesNothing`: so it is in documents that declare nothing negative, unless a
  part of the draft loses a side.
-/

namespace Montage

/-- A failure for want of a canvas: one of its sides is not known, or it has no pixels. -/
def Failure.WantsCanvas : Failure → Prop
  | .unresolved _ .width => True
  | .unresolved _ .height => True
  | .emptyCanvas .. => True
  | _ => False

variable {τ β γ : Type}

namespace Compile

theorem bind_eq_error {π : Type} {c : Compile τ π β} {f : β → Compile τ π γ} {w : Workshop τ π}
    {e : Failure} : (c >>= f) w = .error e ↔
      c w = .error e ∨ ∃ a w', c w = .ok (a, w') ∧ f a w' = .error e := by
  rcases hc : c w with e' | ⟨a, w'⟩
  · simp [Bind.bind, StateT.bind, Except.bind, hc]
  · simp [Bind.bind, StateT.bind, Except.bind, hc]

/-- A step never fails for want of a canvas, and what it answers is as given. -/
def Affords (c : Compile τ Int β) (given : β → Prop) : Prop :=
  ∀ w, (∀ b w', c w = .ok (b, w') → given b) ∧ ∀ e, c w = .error e → ¬e.WantsCanvas

namespace Affords

variable {given : β → Prop} {given' : γ → Prop}

theorem pure {b : β} (h : given b) : Affords (Pure.pure b : Compile τ Int β) given := by
  refine fun w => ⟨fun b' w' hc => ?_, fun e hc => ?_⟩
  · obtain ⟨rfl, -⟩ := pure_eq_ok.1 hc
    exact h
  · cases hc

theorem throw {f : Failure} (h : ¬f.WantsCanvas) :
    Affords (MonadExcept.throw f : Compile τ Int β) given := by
  refine fun w => ⟨fun b w' hc => ?_, fun e hc => ?_⟩
  · cases hc
  · cases hc
    exact h

theorem bind {c : Compile τ Int β} {f : β → Compile τ Int γ} (h : Affords c given)
    (hf : ∀ b, given b → Affords (f b) given') : Affords (c >>= f) given' := by
  intro w
  obtain ⟨hok, herror⟩ := h w
  refine ⟨fun b w'' hc => ?_, fun e hc => ?_⟩
  · obtain ⟨a, w', ha, hb⟩ := bind_eq_ok.1 hc
    exact (hf a (hok a w' ha) w').1 b w'' hb
  · rcases bind_eq_error.1 hc with hfirst | ⟨a, w', ha, hrest⟩
    · exact herror e hfirst
    · exact (hf a (hok a w' ha) w').2 e hrest

theorem get_bind {f : Workshop τ Int → Compile τ Int γ} (hf : ∀ w, Affords (f w) given') :
    Affords (MonadState.get >>= f) given' :=
  fun w => hf w w

theorem map {c : Compile τ Int β} {f : β → γ} (h : Affords c given)
    (hf : ∀ b, given b → given' (f b)) : Affords (f <$> c) given' := by
  rw [map_eq_pure_bind]
  exact bind h fun b hb => pure (hf b hb)

theorem ite {p : Prop} [Decidable p] {c d : Compile τ Int β} (hc : Affords c given)
    (hd : Affords d given) : Affords (if p then c else d) given := by
  split
  · exact hc
  · exact hd

/-- Changing a pad that may be there answers a pad if it is. -/
theorem mapM {f : Pad → Compile τ Int Pad} {p : Option Pad}
    (hf : ∀ q ∈ p, Affords (f q) fun _ => True) :
    Affords (p.mapM f) fun q => q.isSome = p.isSome := by
  cases p with
  | none => exact pure rfl
  | some p => exact map (hf p rfl) fun _ _ => rfl

end Affords

/-! ### Requests -/

theorem affords_of_ok {c : Compile τ Int β} (h : ∀ w, ∃ answer, c w = .ok answer) :
    Affords c fun _ => True := by
  refine fun w => ⟨fun _ _ _ => trivial, fun e hc => ?_⟩
  obtain ⟨answer, hanswer⟩ := h w
  exact absurd (hanswer.symm.trans hc) (by simp)

theorem affords_onGraph (f : Graph (Filter τ Int) → β × Graph (Filter τ Int)) :
    Affords (onGraph f) fun _ => True :=
  affords_of_ok fun _ => ⟨_, rfl⟩

theorem affords_join (kind : StreamKind) (inputs : List Pad) (filter : Filter τ Int) :
    Affords (join kind inputs filter) fun _ => True :=
  affords_onGraph _

theorem affords_apply (kind : StreamKind) (filter : Filter τ Int) (p : Pad) :
    Affords (apply kind filter p) fun _ => True :=
  affords_join kind [p] filter

theorem affords_split (kind : StreamKind) (p : Pad) :
    Affords (split kind p : Compile τ Int (Pad × Pad)) fun _ => True :=
  affords_onGraph _

theorem affords_counted (ns : List Int) :
    Affords (counted ns : Compile τ Int Unit) fun _ => True := by
  unfold counted
  split
  · exact .throw fun h => by cases h
  · exact .pure trivial

/-- What is handed out is wanted. -/
theorem affords_handOut (kind : StreamKind) (wanted : Bool) (spare : Option Pad) :
    Affords (handOut kind wanted spare : Compile τ Int (Option Pad × Option Pad))
      fun answer => answer.1.isSome = true → wanted = true := by
  unfold handOut
  split
  · exact .bind (affords_split kind _) fun _ _ => .pure fun _ => rfl
  · exact .pure fun h => by cases h

theorem affords_spares [Timescale τ] (key : SourceKey) (wantAudio : Bool) :
    Affords (spares key wantAudio : Compile τ Int Spares) fun _ => True := by
  refine .get_bind fun w => ?_
  split
  · exact affords_of_ok fun _ => ⟨_, rfl⟩
  · exact .bind (affords_onGraph _) fun _ _ => .pure trivial

/-- A video of a file is wanted. -/
theorem affords_source [Timescale τ] (path : Path) (kind : MediaKind) (wantVideo wantAudio : Bool) :
    Affords (source path kind wantVideo wantAudio : Compile τ Int (Option Pad × Option Pad))
      fun answer => answer.1.isSome = true → wantVideo = true := by
  refine .bind (affords_spares _ wantAudio) fun spares _ => ?_
  refine .bind (affords_handOut .video wantVideo _) fun video hvideo => ?_
  refine .bind (affords_handOut .audio wantAudio _) fun audio _ => ?_
  exact .bind (affords_of_ok fun _ => ⟨_, rfl⟩) fun _ _ => .pure hvideo

theorem affords_canvasStream (key : CanvasKey Int) :
    Affords (canvasStream key : Compile τ Int Pad) fun _ => True := by
  refine .get_bind fun w => ?_
  split
  · exact affords_of_ok fun _ => ⟨_, rfl⟩
  · exact .bind (affords_join .video [] _) fun p _ => affords_apply .video .rgba p

/-- A canvas with room can be had. -/
theorem affords_canvas (tag : Tag) {width height : Int} (hw : 0 < width) (hh : 0 < height)
    (color : Option Color) :
    Affords (canvas tag (.pixel width) (.pixel height) color : Compile τ Int Pad)
      fun _ => True := by
  have hempty : ¬(width ≤ 0 ∨ height ≤ 0) := by omega
  unfold canvas concrete
  simp only [Length.pixels?_pixel, pure_bind, if_neg hempty]
  refine .bind (affords_counted _) fun _ _ => ?_
  refine .bind (affords_canvasStream _) fun stream _ => ?_
  refine .bind (affords_split .video stream) fun halves _ => ?_
  exact .bind (affords_of_ok fun _ => ⟨_, rfl⟩) fun _ _ => .pure trivial

end Compile

open Compile

/-! ### Streams -/

namespace Streams

/-- There is a video only if there is something to be seen. -/
def IsSeen (seen : Bool) (st : Streams) : Prop :=
  st.video.isSome = true → seen = true

variable {seen : Bool} {st : Streams}

theorem affords_mapM {f g : Pad → Compile τ Int Pad} (hf : ∀ p, Affords (f p) fun _ => True)
    (hg : ∀ p, Affords (g p) fun _ => True) (h : st.IsSeen seen) :
    Affords (st.mapM f g) (IsSeen seen) := by
  refine .bind (.mapM fun p _ => hf p) fun video hvideo => ?_
  refine .bind (.mapM fun p _ => hg p) fun audio _ => .pure ?_
  rw [IsSeen, hvideo]
  exact h

theorem affords_apply (onVideo onAudio : Filter τ Int) (h : st.IsSeen seen) :
    Affords (st.apply onVideo onAudio) (IsSeen seen) :=
  affords_mapM (Compile.affords_apply .video onVideo) (Compile.affords_apply .audio onAudio) h

/-- Two filters after each other. -/
theorem affords_twice (kind : StreamKind) (first second : Filter τ Int) (p : Pad) :
    Affords (Compile.apply kind first p >>= Compile.apply kind second) fun _ => True :=
  .bind (Compile.affords_apply kind first p) fun q _ => Compile.affords_apply kind second q

theorem affords_extend (h : st.IsSeen seen) :
    Affords (st.extend : Compile τ Int Streams) (IsSeen seen) :=
  affords_apply _ _ h

theorem affords_conform (t : τ) (color : Option Color) (h : st.IsSeen seen) :
    Affords (st.conform t color : Compile τ Int Streams) (IsSeen seen) :=
  affords_mapM (affords_twice .video _ _) (affords_twice .audio _ _) h

variable [Timescale τ]

theorem affords_delay (t : τ) (color : Option Color) (h : st.IsSeen seen) :
    Affords (st.delay t color : Compile τ Int Streams) (IsSeen seen) :=
  .ite (.pure h) (affords_apply _ _ h)

theorem affords_append (t : τ) (color : Option Color) (h : st.IsSeen seen) :
    Affords (st.append t color : Compile τ Int Streams) (IsSeen seen) :=
  .ite (.pure h) (affords_apply _ _ h)

theorem affords_padded (style : Style τ Int) (h : st.IsSeen seen) :
    Affords (st.padded style) (IsSeen seen) :=
  .bind (affords_delay _ _ h) fun _ h => .ite (.pure h) (affords_append _ _ h)

theorem affords_spaced (style : Style τ Int) (h : st.IsSeen seen) :
    Affords (st.spaced style) (IsSeen seen) :=
  .bind (affords_delay _ _ h) fun _ h => .ite (.pure h) (affords_append _ _ h)

end Streams

/-! ### Leaves -/

namespace Leaf

theorem affords_doubled (audio : Pad) : Affords (doubled audio : Compile τ Int Pad) fun _ => True :=
  .bind (affords_split .audio audio) fun _ _ => affords_join _ _ _

theorem affords_soundOf (style : Style τ Int) (audio : Pad) :
    Affords (soundOf style audio) fun _ => True := by
  unfold soundOf
  extract_lets normalized louder
  have hnormalized : ∀ p, Affords (normalized p) fun _ => True :=
    fun p => .get_bind fun w => affords_apply _ _ p
  have hlouder : ∀ p, Affords (louder p) fun _ => True := by
    intro p
    unfold louder
    split
    · exact .bind (affords_apply .audio _ p) fun q _ => hnormalized q
    · exact hnormalized p
  split
  · exact .bind (affords_doubled audio) fun p _ => hlouder p
  · refine .bind (affords_apply .audio .downmix audio) fun mono _ => ?_
    exact .bind (affords_doubled mono) fun p _ => hlouder p
  · exact hlouder audio

theorem affords_sound (kind : MediaKind) (style : Style τ Int) (audio : Option Pad) :
    Affords (sound kind style audio) fun _ => True := by
  unfold sound
  split
  · exact .map (affords_soundOf style _) fun _ _ => trivial
  · refine .ite (.get_bind fun w => ?_) (.pure trivial)
    exact .map (affords_join _ _ _) fun _ _ => trivial

/-- A node with room has its canvas. -/
theorem affords_canvas (tag : Tag) {style : Style τ Int} (h : style.HasRoom) :
    Affords (canvas tag style) fun _ => True := by
  obtain ⟨width, height, hwidth, hheight, hw, hh⟩ := h.padded
  rw [canvas, hwidth, hheight]
  exact Compile.affords_canvas tag hw hh _

theorem affords_pictureOf (tag : Tag) {style : Style τ Int} (h : style.HasRoom) (video : Pad) :
    Affords (pictureOf tag style video) fun _ => True := by
  unfold pictureOf
  extract_lets x y timed
  have htimed : ∀ p, Affords (timed p) fun _ => True := by
    intro p
    refine .bind (affords_apply .video .squarePixels p) fun squared _ => .get_bind fun w => ?_
    refine .bind (affords_apply .video _ squared) fun rated _ => .ite (.pure trivial) ?_
    exact .bind (affords_canvas tag h) fun base _ => affords_join _ _ _
  split
  · exact .bind (affords_apply .video _ video) fun p _ => htimed p
  · exact htimed video

variable [Timescale τ]

theorem affords_cut (kind : MediaKind) (style : Style τ Int) {seen : Bool} {st : Streams}
    (h : st.IsSeen seen) : Affords (cut kind style st) (Streams.IsSeen seen) := by
  unfold cut
  split
  · split
    · exact .bind (Streams.affords_extend h) fun _ h => Streams.affords_apply _ _ h
    · exact Streams.affords_apply _ _ h
  · exact .ite (Streams.affords_apply _ _ h) (.pure h)
  · exact .pure h

theorem affords_natural (tag : Tag) (kind : MediaKind) (locator : Locator) {style : Style τ Int}
    (h : kind.hasVideo = true → style.HasRoom) :
    Affords (natural tag kind locator style) (Streams.IsSeen kind.hasVideo) := by
  unfold natural
  split
  · have hdrawing : ∀ text, Affords (drawing tag style text) fun _ => True := fun text =>
      .bind (affords_canvas tag (h rfl)) fun base _ => affords_apply _ _ base
    exact .bind (hdrawing _) fun video _ => .pure fun _ => rfl
  · exact .throw id
  · refine .bind (affords_source _ _ _ _) fun streams hvideo => ?_
    refine .bind (.mapM fun p hp => ?_) fun video hmapped => ?_
    · exact affords_pictureOf tag (h (hvideo (Option.isSome_of_mem hp))) p
    · refine .bind (affords_sound _ style _) fun audio _ => .pure ?_
      rw [Streams.IsSeen, hmapped]
      exact hvideo

theorem affords_compile (tag : Tag) (kind : MediaKind) (locator : Locator) {style : Style τ Int}
    (h : kind.hasVideo = true → style.HasRoom) :
    Affords (compile tag kind locator style) (Streams.IsSeen kind.hasVideo) :=
  .bind (affords_natural tag kind locator h) fun _ h =>
    .bind (affords_cut kind style h) fun _ h => Streams.affords_padded style h

end Leaf
/-! ### Containers -/

namespace Playlist

/-- There are videos only if there is something to be seen. -/
def IsSeen (seen : Bool) (p : Playlist τ) : Prop :=
  p.videos ≠ [] → seen = true

theorem affords_concat (kind : StreamKind) (pads : List Pad) :
    Affords (concat kind pads : Compile τ Int (Option Pad))
      fun joined => joined.isSome = true → pads ≠ [] := by
  unfold concat
  split
  · exact .pure fun h => by cases h
  · exact .pure fun _ => List.cons_ne_nil _ _
  · next hne _ => exact .map (affords_join _ _ _) fun _ _ _ => hne

variable [Timescale τ] {seen : Bool} {p : Playlist τ}

theorem affords_addVideo {container : Style τ Int} (child : Style τ Int) (tag : Tag)
    (lead footprint : τ) {video : Option Pad} (hc : seen = true → container.HasRoom)
    (hv : video.isSome = true → seen = true) (hp : p.IsSeen seen) :
    Affords (p.addVideo container child tag lead footprint video) (IsSeen seen) := by
  unfold addVideo
  split
  · exact .pure hp
  · have hseen := hv rfl
    refine .bind (Leaf.affords_canvas tag (hc hseen)) fun base _ => ?_
    refine .bind (affords_counted _) fun _ _ => ?_
    refine .bind (affords_join _ _ _) fun placed _ => ?_
    simp only
    split
    · exact .bind (affords_apply _ _ placed) fun segment _ => .pure fun _ => hseen
    · exact .pure fun _ => hseen

theorem affords_addAudio (lead footprint : τ) (audio : Option Pad) (hp : p.IsSeen seen) :
    Affords (p.addAudio lead footprint audio : Compile τ Int (Playlist τ)) (IsSeen seen) := by
  unfold addAudio
  split
  · exact .pure hp
  · simp only
    split
    · exact .bind (affords_apply _ _ _) fun segment _ => .pure hp
    · exact .pure hp

theorem affords_add {container : Style τ Int} (child : Style τ Int) (tag : Tag) {st : Streams}
    (hc : seen = true → container.HasRoom) (hs : st.IsSeen seen) (hp : p.IsSeen seen) :
    Affords (p.add container child tag st) (IsSeen seen) :=
  .bind (affords_addVideo child tag _ _ hc hs hp) fun _ hp =>
    .bind (affords_addAudio _ _ st.audio hp) fun _ hp => .pure hp

theorem affords_close (container : Style τ Int) (hp : p.IsSeen seen) :
    Affords (p.close container) (Streams.IsSeen seen) := by
  refine .bind (affords_concat .video _) fun video hvideo => ?_
  refine .bind (affords_concat .audio _) fun audio _ => ?_
  have hjoined : Streams.IsSeen seen ⟨video, audio⟩ := fun h => hp (hvideo h)
  refine .ite (Streams.affords_extend hjoined) (Streams.affords_mapM ?_ ?_ hjoined)
  · exact fun v => .ite (affords_apply _ _ v) (.pure trivial)
  · exact fun a => .ite (affords_apply _ _ a) (.pure trivial)

theorem affords_finish (container : Style τ Int) (hp : p.IsSeen seen) :
    Affords (p.finish container) (Streams.IsSeen seen) := by
  rw [finish_eq]
  refine .bind (affords_close container hp) fun st hst => ?_
  unfold size
  split
  · exact Streams.affords_conform _ _ hst
  · exact .pure hst

end Playlist

namespace Mixdown

/-- There is a video only if there is something to be seen. -/
def IsSeen (seen : Bool) (m : Mixdown Int) : Prop :=
  m.video.isSome = true → seen = true

theorem affords_mix (pads : List Pad) :
    Affords (mix pads : Compile τ Int (Option Pad)) fun _ => True := by
  unfold mix
  split
  · exact .pure trivial
  · exact .pure trivial
  · exact .map (affords_join _ _ _) fun _ _ => trivial

theorem affords_fill (container : Style τ Int) (audio : Pad) :
    Affords (fill container audio) fun _ => True := by
  unfold fill
  split
  · exact Streams.affords_twice .audio _ _ audio
  · exact affords_apply _ _ audio

variable {seen : Bool} {m : Mixdown Int}

theorem affords_ground (tag : Tag) {container : Style τ Int}
    (hc : seen = true → container.HasRoom) :
    Affords (ground tag container seen) fun video => video.isSome = true → seen = true := by
  unfold ground
  split
  · next hseen =>
      refine .bind (Leaf.affords_canvas tag (hc hseen)) fun base _ => ?_
      split
      · exact .map (affords_apply _ _ base) fun video _ _ => hseen
      · exact .pure fun _ => hseen
  · exact .pure fun h => by cases h

theorem affords_start (tag : Tag) {container : Style τ Int}
    (hc : seen = true → container.HasRoom) :
    Affords (start tag container seen) (IsSeen seen) :=
  .bind (affords_ground tag hc) fun _ hvideo =>
    .bind (affords_counted _) fun _ _ => .pure hvideo

theorem affords_add (container child : Style τ Int) {st : Streams} (hs : st.IsSeen seen)
    (hm : m.IsSeen seen) : Affords (m.add container child st) (IsSeen seen) := by
  unfold add
  split
  · exact .pure hm
  · next layer hlayer =>
      have hseen := hs (by rw [hlayer]; rfl)
      simp only
      refine .bind (affords_counted _) fun _ _ => ?_
      split
      · exact .bind (affords_join _ _ _) fun video _ => .pure fun _ => hseen
      · exact .pure fun _ => hseen

theorem affords_finish (container : Style τ Int) (hm : m.IsSeen seen) :
    Affords (m.finish container) (Streams.IsSeen seen) :=
  .bind (affords_mix m.tracks) fun _ _ =>
    .bind (.mapM fun a _ => affords_fill container a) fun _ _ => .pure hm

end Mixdown

/-! ### Scenes -/

variable [Timescale τ]

mutual

/-- Where all that can be seen has room, no step of a scene fails for want of a canvas. -/
theorem affords_compileScene : ∀ {scene : Scene τ Int},
    (∀ node : Scene τ Int, node.Within scene → node.hasVideo = true → node.style.HasRoom) →
      Affords (compileScene scene) (Streams.IsSeen scene.hasVideo)
  | .leaf tag kind locator style, h => by
      rw [compileScene]
      exact Leaf.affords_compile tag kind locator (h _ (.self _))
  | .container tag style items, h => by
      obtain ⟨hself, hitems⟩ := Scene.forall_within_container.1 h
      rw [compileScene, Scene.hasVideo]
      split
      · refine .bind (affords_compileSequence tag hself hitems id fun h => absurd rfl h)
          fun p hp => ?_
        exact .bind (Playlist.affords_finish style hp) fun st hst =>
          Streams.affords_padded style hst
      · refine .bind (Mixdown.affords_start tag hself) fun m hm => ?_
        refine .bind (affords_compileParallel style hitems id hm) fun m hm => ?_
        exact .bind (Mixdown.affords_finish style hm) fun st hst =>
          Streams.affords_padded style hst

theorem affords_compileSequence (tag : Tag) {container : Style τ Int} {seen : Bool}
    (hc : seen = true → container.HasRoom) : ∀ {items : List (Scene τ Int)} {p : Playlist τ},
    (∀ i ∈ items, ∀ node : Scene τ Int, node.Within i → node.hasVideo = true →
      node.style.HasRoom) →
      (Scene.anyVideo items = true → seen = true) → p.IsSeen seen →
        Affords (compileSequence tag container p items) (Playlist.IsSeen seen)
  | [], p, _, _, hp => by
      rw [compileSequence]
      exact .pure hp
  | item :: rest, p, h, hv, hp => by
      obtain ⟨hitem, hrest⟩ := List.forall_mem_cons.1 h
      rw [Scene.anyVideo, Bool.or_eq_true, or_imp] at hv
      rw [compileSequence]
      refine .bind (affords_compileScene hitem) fun st hst => ?_
      refine .bind (Playlist.affords_add item.style tag hc (fun hs => hv.1 (hst hs)) hp)
        fun p hp => ?_
      exact .ite (.pure hp) (affords_compileSequence tag hc hrest hv.2 hp)

theorem affords_compileParallel (container : Style τ Int) {seen : Bool} :
    ∀ {items : List (Scene τ Int)} {m : Mixdown Int},
    (∀ i ∈ items, ∀ node : Scene τ Int, node.Within i → node.hasVideo = true →
      node.style.HasRoom) →
      (Scene.anyVideo items = true → seen = true) → m.IsSeen seen →
        Affords (compileParallel container m items) (Mixdown.IsSeen seen)
  | [], m, _, _, hm => by
      rw [compileParallel]
      exact .pure hm
  | item :: rest, m, h, hv, hm => by
      obtain ⟨hitem, hrest⟩ := List.forall_mem_cons.1 h
      rw [Scene.anyVideo, Bool.or_eq_true, or_imp] at hv
      rw [compileParallel]
      refine .bind (affords_compileScene hitem) fun st hst => ?_
      refine .bind (Streams.affords_spaced item.style hst) fun st hst => ?_
      refine .bind (Mixdown.affords_add container item.style (fun hs => hv.1 (hst hs)) hm)
        fun m hm => ?_
      exact affords_compileParallel container hrest hv.2 hm

end

/-- Where all that can be seen has room, no step of a film fails for want of a canvas. -/
theorem Film.affords_streams {root : Scene τ Int} {resolution : Resolution}
    (hw : 0 < resolution.width) (hh : 0 < resolution.height)
    (h : ∀ node : Scene τ Int, node.Within root → node.hasVideo = true → node.style.HasRoom) :
    Affords (streams root resolution) fun _ => True := by
  have hscreen : ∀ video, Affords (onScreen root resolution video) fun _ => True := fun video =>
    .bind (Compile.affords_canvas _ (Int.ofNat_lt.2 hw) (Int.ofNat_lt.2 hh) _) fun base _ =>
      affords_join _ _ _
  refine .bind (affords_compileScene h) fun st hst => ?_
  refine .bind (.mapM fun v _ => hscreen v) fun video hvideo => ?_
  have hseen : Streams.IsSeen root.hasVideo ⟨video, st.audio⟩ := by
    rw [Streams.IsSeen, hvideo]
    exact hst
  refine .bind (Streams.affords_delay _ _ hseen) fun st hst => ?_
  refine .bind (Streams.affords_append _ _ hst) fun st _ => ?_
  split
  · exact .bind (affords_onGraph _) fun pads _ => .pure trivial
  · exact .throw id
  · exact .pure trivial

/-- Where all that can be seen has room, a film does not fail for want of a canvas. -/
theorem Film.not_wantsCanvas {root : Scene τ Int} {frame : Frame τ}
    (hw : 0 < frame.resolution.width) (hh : 0 < frame.resolution.height)
    (h : ∀ node : Scene τ Int, node.Within root → node.hasVideo = true → node.style.HasRoom)
    {sampleRate : Nat} {e : Failure} (he : ofScene root frame sampleRate = .error e) :
    ¬e.WantsCanvas := by
  unfold ofScene at he
  split at he
  · cases he
    exact id
  · have hstreams := (affords_streams hw hh h (.start frame sampleRate)).2
    cases hrun : streams root frame.resolution (.start frame sampleRate) with
    | error e' =>
        rw [hrun] at he
        cases he
        exact hstreams _ hrun
    | ok answer =>
        rw [hrun] at he
        cases he

/-- A document that declares nothing negative, over media with pixels: all that can be seen has a
box with room if and only if no part of the draft loses a side, and then the film does not fail for
want of a canvas. -/
theorem Document.canvases_of_losesNothing {d : Document τ} {probe : Probe τ} {root : Scene τ Int}
    (hs : d.scene probe = .ok root) (hw : 0 < d.frame.resolution.width)
    (hh : 0 < d.frame.resolution.height) (hn : d.DeclaresNothingNegative)
    (hp : probe.FindsPixels) :
    ∃ draft, d.draft probe = .ok draft ∧ root = draft.finish ∧
      ((∀ node : Scene τ Int, node.Within root → node.hasVideo = true → node.style.HasRoom) ↔
        draft.LosesNothing) ∧
      (draft.LosesNothing → ∀ sampleRate e,
        Film.ofScene root d.frame sampleRate = .error e → ¬e.WantsCanvas) := by
  obtain ⟨draft, hdraft, rfl⟩ := exists_draft hs
  have hroom := Scene.hasRoom_finish_iff (isDrafted_draft hdraft hn hp)
  exact ⟨draft, hdraft, rfl, hroom, fun hl _ _ => Film.not_wantsCanvas hw hh (hroom.2 hl)⟩

theorem galleryProbe_findsPixels : galleryProbe.FindsPixels := by
  rintro path info video hinfo hvideo
  cases hinfo
  cases hvideo
  decide

theorem Document.canvases_of_losesNothing_gallery : ∃ root : Scene Rat Int,
    gallery.scene galleryProbe = .ok root ∧
      (∀ node : Scene Rat Int, node.Within root → node.hasVideo = true → node.style.HasRoom) ∧
      ∀ sampleRate e, Film.ofScene root gallery.frame sampleRate = .error e → ¬e.WantsCanvas := by
  have hrun :
      ((gallery.scene galleryProbe).toOption.map fun _ : Scene Rat Int => ()) = some () := by
    decide +kernel
  have hloses : ((gallery.draft galleryProbe).toOption.map fun draft : Scene Rat Int =>
      decide draft.LosesNothing) = some true := by
    decide +kernel
  obtain ⟨root, hroot, -⟩ := exists_ok_of_map hrun
  obtain ⟨draft, hdraft, -, hroom, hcanvases⟩ := canvases_of_losesNothing hroot (by decide)
    (by decide) (by decide +kernel) galleryProbe_findsPixels
  rw [hdraft] at hloses
  have hnothing : draft.LosesNothing := of_decide_eq_true (Option.some.inj hloses)
  exact ⟨root, hroot, hroom.2 hnothing, hcanvases hnothing⟩

/-- A video that is three times as wide as it is high, one pixel wide. -/
def sliver : Document Rat where
  baseDir := ⟨""⟩
  frame := ⟨⟨320, 180⟩, 25⟩
  sheet := .empty
  root := ⟨.cont, [], [⟨.vid, [("src", "a.mp4"), ("style", "width: 1px")], [], none⟩], none⟩

def sliverProbe : Probe Rat := fun _ =>
  .ok ⟨some 2, some ⟨3, 1⟩, none⟩

/-- Positive sides that are declared do not suffice: the shape of the media may leave no pixels. -/
theorem Document.sliver_wants_canvas :
    sliver.declarations = [⟨"width", "1px"⟩] ∧
      ((Style.initial : Style Rat Int).declare ⟨"width", "1px"⟩).width.pixels? = some 1 ∧
      sliverProbe.FindsPixels ∧
      ∃ root : Scene Rat Int, sliver.scene sliverProbe = .ok root ∧
        (∃ node : Scene Rat Int, node.Within root ∧ node.hasVideo = true ∧ ¬node.style.HasRoom) ∧
        Film.ofScene root sliver.frame 48000 = .error (.emptyCanvas .cont 1 0) := by
  have hfilm : ((sliver.scene sliverProbe).toOption.map fun root : Scene Rat Int =>
      (Film.ofScene root sliver.frame 48000).map fun _ => ()) =
        some (.error (.emptyCanvas .cont 1 0)) := by
    decide +kernel
  refine ⟨by decide +kernel, by decide +kernel, ?_, ?_⟩
  · rintro path info video hinfo hvideo
    cases hinfo
    cases hvideo
    decide
  · obtain ⟨root, hroot, herror⟩ := exists_ok_of_map hfilm
    have hfailed : Film.ofScene root sliver.frame 48000 = .error (.emptyCanvas .cont 1 0) := by
      cases h : Film.ofScene root sliver.frame 48000 with
      | ok film =>
          rw [h] at herror
          cases herror
      | error e =>
          rw [h] at herror
          cases herror
          rfl
    refine ⟨root, hroot, ?_, hfailed⟩
    by_contra hnone
    refine Film.not_wantsCanvas (by decide) (by decide) (fun node hnode hv => ?_) hfailed trivial
    by_contra hroom
    exact hnone ⟨node, hnode, hv, hroom⟩

end Montage
