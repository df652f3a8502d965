import Montage.Proofs.Compile.Visits

/-!
# Steps of a compilation

What compilations are put together from: filters with one or two outputs, canvases, and the streams of
files.

**Input.** The functions that compile a scene.

**Algorithm.** One walk over all of them. What is kept by the single steps, and by steps in a row, is
then kept by every compilation, by induction on `Compile.Composed`.

**Results.** `Film.composed_streams`: so the streams of a film are compiled.
-/

namespace Montage

variable {τ π β γ : Type} [Timescale τ] [PixelCount π]

namespace Compile

/-- A step that is put together from single steps. -/
inductive Composed : {β : Type} → Compile τ π β → Prop
  | pure {β : Type} (b : β) : Composed (Pure.pure b)
  | throw {β : Type} (f : Failure) : Composed (MonadExcept.throw f : Compile τ π β)
  | bind {β γ : Type} {c : Compile τ π β} {f : β → Compile τ π γ} (h : Composed c)
      (hf : ∀ b, Composed (f b)) : Composed (c >>= f)
  | get_bind {γ : Type} {f : Workshop τ π → Compile τ π γ} (hf : ∀ w, Composed (f w)) :
      Composed (MonadState.get >>= f)
  | join (kind : StreamKind) (inputs : List Pad) (filter : Filter τ π) :
      Composed (Compile.join kind inputs filter)
  | fork (first second : StreamKind) (inputs : List Pad) (filter : Filter τ π) :
      Composed (onGraph fun g => g.fork first second inputs filter)
  | canvas (tag : Tag) (width height : Length π) (color : Option Color) :
      Composed (Compile.canvas tag width height color)
  | source (path : Path) (kind : MediaKind) (wantVideo wantAudio : Bool) :
      Composed (Compile.source path kind wantVideo wantAudio)

namespace Composed

theorem map {c : Compile τ π β} {f : β → γ} (h : Composed c) : Composed (f <$> c) := by
  rw [map_eq_pure_bind]
  exact .bind h fun b => .pure (f b)

theorem ite {p : Prop} [Decidable p] {c d : Compile τ π β} (hc : Composed c) (hd : Composed d) :
    Composed (if p then c else d) := by
  split
  · exact hc
  · exact hd

theorem mapM {f : Pad → Compile τ π Pad} (hf : ∀ p, Composed (f p)) (p : Option Pad) :
    Composed (p.mapM f) := by
  cases p with
  | none => exact .pure none
  | some p => exact map (hf p)

theorem apply (kind : StreamKind) (filter : Filter τ π) (p : Pad) :
    Composed (Compile.apply kind filter p) :=
  .join kind [p] filter

/-- Counts that are found change nothing. -/
theorem counted (ns : List π) : Composed (Compile.counted ns : Compile τ π Unit) := by
  unfold Compile.counted
  split
  · exact .throw _
  · exact .pure ()

end Composed
end Compile

open Compile

namespace Streams

theorem composed_mapM {f g : Pad → Compile τ π Pad} (hf : ∀ p, Composed (f p))
    (hg : ∀ p, Composed (g p)) (st : Streams) : Composed (st.mapM f g) :=
  .bind (.mapM hf st.video) fun _ => .bind (.mapM hg st.audio) fun _ => .pure _

theorem composed_apply (onVideo onAudio : Filter τ π) (st : Streams) :
    Composed (st.apply onVideo onAudio) :=
  composed_mapM (.apply .video onVideo) (.apply .audio onAudio) st

/-- Two filters after each other. -/
theorem composed_twice (kind : StreamKind) (first second : Filter τ π) (p : Pad) :
    Composed (Compile.apply kind first p >>= Compile.apply kind second) :=
  .bind (.apply kind first p) (.apply kind second)

theorem composed_extend (st : Streams) : Composed (st.extend : Compile τ π Streams) :=
  composed_apply _ _ st

theorem composed_conform (t : τ) (color : Option Color) (st : Streams) :
    Composed (st.conform t color : Compile τ π Streams) :=
  composed_mapM (composed_twice .video _ _) (composed_twice .audio _ _) st

theorem composed_delay (t : τ) (color : Option Color) (st : Streams) :
    Composed (st.delay t color : Compile τ π Streams) :=
  .ite (.pure st) (composed_apply _ _ st)

theorem composed_append (t : τ) (color : Option Color) (st : Streams) :
    Composed (st.append t color : Compile τ π Streams) :=
  .ite (.pure st) (composed_apply _ _ st)

theorem composed_padded (style : Style τ π) (st : Streams) : Composed (st.padded style) :=
  .bind (composed_delay _ _ st) fun st => .ite (.pure st) (composed_append _ _ st)

theorem composed_spaced (style : Style τ π) (st : Streams) : Composed (st.spaced style) :=
  .bind (composed_delay _ _ st) fun st => .ite (.pure st) (composed_append _ _ st)

end Streams

namespace Leaf

theorem composed_doubled (audio : Pad) : Composed (doubled audio : Compile τ π Pad) :=
  .bind (.fork _ _ _ _) fun _ => .join _ _ _

theorem composed_soundOf (style : Style τ π) (audio : Pad) : Composed (soundOf style audio) := by
  unfold soundOf
  extract_lets normalized louder
  have hnormalized : ∀ p, Composed (normalized p) := fun p => .get_bind fun w => .apply _ _ p
  have hlouder : ∀ p, Composed (louder p) := by
    intro p
    unfold louder
    split
    · exact .bind (.apply .audio _ p) hnormalized
    · exact hnormalized p
  split
  · exact .bind (composed_doubled audio) hlouder
  · refine .bind (.apply .audio .downmix audio) fun mono => ?_
    exact .bind (composed_doubled mono) hlouder
  · exact hlouder audio

theorem composed_sound (kind : MediaKind) (style : Style τ π) (audio : Option Pad) :
    Composed (sound kind style audio) := by
  unfold sound
  split
  · exact .map (composed_soundOf style _)
  · exact .ite (.get_bind fun w => .map (.join _ _ _)) (.pure none)

theorem composed_canvas (tag : Tag) (style : Style τ π) : Composed (canvas tag style) :=
  .canvas tag _ _ _

theorem composed_pictureOf (tag : Tag) (style : Style τ π) (video : Pad) :
    Composed (pictureOf tag style video) := by
  unfold pictureOf
  extract_lets x y timed
  have htimed : ∀ p, Composed (timed p) := by
    intro p
    refine .bind (.apply .video .squarePixels p) fun squared => .get_bind fun w => ?_
    refine .bind (.apply .video _ squared) fun rated => .ite (.pure rated) ?_
    exact .bind (composed_canvas tag style) fun base => .join _ _ _
  split
  · exact .bind (.apply .video _ video) htimed
  · exact htimed video

theorem composed_cut (kind : MediaKind) (style : Style τ π) (st : Streams) :
    Composed (cut kind style st) := by
  unfold cut
  split
  · split
    · exact .bind (Streams.composed_extend st) fun st => Streams.composed_apply _ _ st
    · exact Streams.composed_apply _ _ st
  · exact .ite (Streams.composed_apply _ _ st) (.pure st)
  · exact .pure st

theorem composed_natural (tag : Tag) (kind : MediaKind) (locator : Locator) (style : Style τ π) :
    Composed (natural tag kind locator style) := by
  unfold natural
  split
  · refine .bind ?_ fun video => .pure _
    exact .bind (composed_canvas tag style) fun base => .apply _ _ base
  · exact .throw _
  · refine .bind (.source _ _ _ _) fun streams => ?_
    refine .bind (.mapM (composed_pictureOf tag style) _) fun video => ?_
    exact .bind (composed_sound _ style _) fun audio => .pure _

theorem composed_compile (tag : Tag) (kind : MediaKind) (locator : Locator) (style : Style τ π) :
    Composed (compile tag kind locator style) :=
  .bind (composed_natural tag kind locator style) fun st =>
    .bind (composed_cut kind style st) fun st => Streams.composed_padded style st

end Leaf

namespace Playlist

theorem composed_concat (kind : StreamKind) (pads : List Pad) :
    Composed (concat kind pads : Compile τ π (Option Pad)) := by
  unfold concat
  split
  · exact .pure none
  · exact .pure _
  · exact .map (.join _ _ _)

theorem composed_addAudio (lead footprint : τ) (p : Playlist τ) (audio : Option Pad) :
    Composed (p.addAudio lead footprint audio : Compile τ π (Playlist τ)) := by
  unfold addAudio
  split
  · exact .pure _
  · simp only
    split
    · exact .bind (.apply _ _ _) fun segment => .pure _
    · exact .pure _

theorem composed_close (container : Style τ π) (p : Playlist τ) : Composed (p.close container) := by
  refine .bind (composed_concat .video _) fun video => .bind (composed_concat .audio _) fun audio => ?_
  refine .ite (Streams.composed_extend _) (Streams.composed_mapM ?_ ?_ _)
  · exact fun v => .ite (.apply _ _ v) (.pure v)
  · exact fun a => .ite (.apply _ _ a) (.pure a)

theorem composed_finish (container : Style τ π) (p : Playlist τ) : Composed (p.finish container) := by
  rw [finish_eq]
  refine .bind (composed_close container p) fun st => ?_
  unfold size
  split
  · exact Streams.composed_conform _ _ st
  · exact .pure st

theorem composed_addVideo (container child : Style τ π) (tag : Tag) (lead footprint : τ)
    (p : Playlist τ) (video : Option Pad) :
    Composed (p.addVideo container child tag lead footprint video) := by
  unfold addVideo
  split
  · exact .pure _
  · refine .bind (Leaf.composed_canvas tag container) fun base => .bind (.counted _) fun _ => ?_
    refine .bind (.join _ _ _) fun placed => ?_
    simp only
    split
    · exact .bind (.apply _ _ placed) fun segment => .pure _
    · exact .pure _

theorem composed_add (container child : Style τ π) (tag : Tag) (p : Playlist τ) (st : Streams) :
    Composed (p.add container child tag st) :=
  .bind (composed_addVideo container child tag _ _ p st.video) fun p =>
    .bind (composed_addAudio _ _ p st.audio) fun _ => .pure _

end Playlist

namespace Mixdown

theorem composed_mix (pads : List Pad) : Composed (mix pads : Compile τ π (Option Pad)) := by
  unfold mix
  split
  · exact .pure none
  · exact .pure _
  · exact .map (.join _ _ _)

theorem composed_fill (container : Style τ π) (audio : Pad) : Composed (fill container audio) := by
  unfold fill
  split
  · exact Streams.composed_twice .audio _ _ audio
  · exact .apply _ _ audio

theorem composed_finish (container : Style τ π) (m : Mixdown π) : Composed (m.finish container) :=
  .bind (composed_mix m.tracks) fun audio =>
    .bind (.mapM (composed_fill container) audio) fun _ => .pure _

theorem composed_ground (tag : Tag) (container : Style τ π) (visible : Bool) :
    Composed (ground tag container visible) := by
  refine .ite (.bind (Leaf.composed_canvas tag container) fun base => ?_) (.pure none)
  split
  · exact .map (.apply _ _ base)
  · exact .pure _

theorem composed_start (tag : Tag) (container : Style τ π) (visible : Bool) :
    Composed (start tag container visible) :=
  .bind (composed_ground tag container visible) fun _ => .bind (.counted _) fun _ => .pure _

theorem composed_add (container child : Style τ π) (m : Mixdown π) (st : Streams) :
    Composed (m.add container child st) := by
  unfold add
  rcases m.place container child with ⟨⟨x, y⟩, flow⟩
  cases st.video with
  | none => exact .pure _
  | some layer =>
      refine .bind (.counted [flow.position, x, y]) fun _ => ?_
      split
      · exact .bind (.join _ _ _) fun video => .pure _
      · exact .pure _

end Mixdown

mutual

theorem composed_compileScene : ∀ scene : Scene τ π, Composed (compileScene scene)
  | .leaf tag kind locator style => by
      rw [compileScene]
      exact Leaf.composed_compile tag kind locator style
  | .container tag style items => by
      rw [compileScene]
      split
      · refine .bind (composed_compileSequence tag style .start items) fun p => ?_
        exact .bind (Playlist.composed_finish style p) fun st => Streams.composed_padded style st
      · refine .bind (Mixdown.composed_start tag style _) fun m => ?_
        refine .bind (composed_compileParallel style m items) fun m => ?_
        exact .bind (Mixdown.composed_finish style m) fun st => Streams.composed_padded style st

theorem composed_compileSequence (tag : Tag) (container : Style τ π) :
    ∀ (p : Playlist τ) (items : List (Scene τ π)), Composed (compileSequence tag container p items)
  | p, [] => by
      rw [compileSequence]
      exact .pure p
  | p, item :: rest => by
      rw [compileSequence]
      refine .bind (composed_compileScene item) fun st => ?_
      refine .bind (Playlist.composed_add container item.style tag p st) fun p => ?_
      exact .ite (.pure p) (composed_compileSequence tag container p rest)

theorem composed_compileParallel (container : Style τ π) :
    ∀ (m : Mixdown π) (items : List (Scene τ π)), Composed (compileParallel container m items)
  | m, [] => by
      rw [compileParallel]
      exact .pure m
  | m, item :: rest => by
      rw [compileParallel]
      refine .bind (composed_compileScene item) fun st => ?_
      refine .bind (Streams.composed_spaced item.style st) fun st => ?_
      exact .bind (Mixdown.composed_add container item.style m st) fun m =>
        composed_compileParallel container m rest

end

/-- A film is a scene that is compiled, and steps after it. -/
theorem Film.exists_rest (root : Scene τ π) (resolution : Resolution) :
    ∃ rest : Streams → Compile τ π Streams,
      streams root resolution = compileScene root >>= rest ∧ ∀ st, Composed (rest st) := by
  refine ⟨_, rfl, fun st => ?_⟩
  refine .bind (.mapM (fun v => ?_) st.video) fun video => ?_
  · exact .bind (.canvas _ _ _ _) fun base => .join _ _ _
  refine .bind (Streams.composed_delay _ _ _) fun st => ?_
  refine .bind (Streams.composed_append _ _ st) fun st => ?_
  split
  · exact .bind (.fork .video .audio _ _) fun pads => .pure _
  · exact .throw _
  · exact .pure _

theorem Film.composed_streams (root : Scene τ π) (resolution : Resolution) :
    Composed (streams root resolution) := by
  obtain ⟨rest, heq, hrest⟩ := exists_rest root resolution
  rw [heq]
  exact .bind (composed_compileScene root) hrest

end Montage
