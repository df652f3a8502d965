import Montage.Proofs.Compile.Steps

/-!
# What a compilation adds

A compilation adds filters and inputs at the end of the graph, and every filter that it adds offers
something; only the drains at the end of a film do not.

**Input.** The steps of a compilation.

**Algorithm.** A filter is only added with one or two outputs, so every single step only adds, and
with it whatever is put together from single steps.

**Results.**
* `Film.adds_streams`: so it is while a film is compiled.
* `Visits.extends_film`: what was there when a node was compiled is there in the film.
-/

namespace Montage

variable {τ π β γ : Type}

namespace Compile

/-- A step only adds to the graph, and no filter that offers nothing. -/
def Adds (c : Compile τ π β) : Prop :=
  ∀ w w' b, c w = .ok (b, w') → w.graph.Extends w'.graph

namespace Adds

theorem pure (b : β) : Adds (Pure.pure b : Compile τ π β) := by
  intro w w' b' hc
  obtain ⟨-, rfl⟩ := pure_eq_ok.1 hc
  exact .refl _

theorem throw (f : Failure) : Adds (MonadExcept.throw f : Compile τ π β) := by
  intro w w' b hc
  cases hc

theorem bind {c : Compile τ π β} {f : β → Compile τ π γ} (h : Adds c)
    (hf : ∀ b, Adds (f b)) : Adds (c >>= f) := by
  intro w w'' b hc
  obtain ⟨a, w', ha, hb⟩ := bind_eq_ok.1 hc
  exact (h w w' a ha).trans (hf a w' w'' b hb)

theorem get_bind {f : Workshop τ π → Compile τ π γ} (hf : ∀ w, Adds (f w)) :
    Adds (MonadState.get >>= f) :=
  fun w w' b hc => hf w w w' b hc

end Adds

theorem adds_join (kind : StreamKind) (inputs : List Pad) (filter : Filter τ π) :
    Adds (join kind inputs filter) := by
  intro w w' b hc
  cases hc
  exact w.graph.extends_push inputs filter (List.cons_ne_nil kind [])

theorem adds_apply (kind : StreamKind) (filter : Filter τ π) (p : Pad) :
    Adds (apply kind filter p) :=
  adds_join kind [p] filter

theorem adds_fork (first second : StreamKind) (inputs : List Pad) (filter : Filter τ π) :
    Adds (onGraph fun g => g.fork first second inputs filter) := by
  intro w w' b hc
  cases hc
  exact w.graph.extends_push inputs filter (List.cons_ne_nil first [second])

theorem adds_split (kind : StreamKind) (p : Pad) : Adds (split kind p : Compile τ π (Pad × Pad)) :=
  adds_fork kind kind [p] _

theorem adds_handOut (kind : StreamKind) (wanted : Bool) (spare : Option Pad) :
    Adds (handOut kind wanted spare : Compile τ π (Option Pad × Option Pad)) := by
  unfold handOut
  split
  · exact .bind (adds_split kind _) fun halves => .pure _
  · exact .pure _

theorem adds_spares [Timescale τ] (key : SourceKey) (wantAudio : Bool) :
    Adds (spares key wantAudio : Compile τ π Spares) := by
  intro w w' b hc
  rw [spares, Compile.get_bind] at hc
  cases ht : takeEntry key.same w.sources with
  | some found =>
      simp only [ht] at hc
      cases hc
      exact .refl _
  | none =>
      simp only [ht] at hc
      cases hc
      exact w.graph.extends_addInput _

theorem adds_source [Timescale τ] (path : Path) (kind : MediaKind) (wantVideo wantAudio : Bool) :
    Adds (source path kind wantVideo wantAudio : Compile τ π (Option Pad × Option Pad)) := by
  refine .bind (adds_spares _ wantAudio) fun spares => ?_
  refine .bind (adds_handOut .video wantVideo _) fun video => ?_
  refine .bind (adds_handOut .audio wantAudio _) fun audio => ?_
  refine .bind ?_ fun _ => .pure _
  intro w w' b hc
  cases hc
  exact .refl _

variable [PixelCount π]

theorem adds_canvasStream (key : CanvasKey π) :
    Adds (canvasStream key : Compile τ π Pad) := by
  intro w w' b hc
  rw [canvasStream, Compile.get_bind] at hc
  cases ht : takeEntry (· == key) w.canvases with
  | some found =>
      simp only [ht] at hc
      cases hc
      exact .refl _
  | none =>
      simp only [ht] at hc
      exact Adds.bind (adds_join .video [] _) (fun p => adds_apply .video .rgba p) w w' b hc

theorem adds_canvas (tag : Tag) (width height : Length π) (color : Option Color) :
    Adds (canvas tag width height color : Compile τ π Pad) := by
  have hcounted : ∀ ns : List π, Adds (counted ns : Compile τ π Unit) := by
    intro ns
    unfold counted
    split
    · exact .throw _
    · exact .pure _
  have hconcrete : ∀ property (l : Length π), Adds (concrete tag property l : Compile τ π π) := by
    intro property l
    unfold concrete
    split
    · exact .pure _
    · exact .throw _
  refine .bind (hcounted _) fun _ => ?_
  refine .bind (hconcrete _ width) fun w => .bind (hconcrete _ height) fun h => ?_
  split
  · exact .throw _
  refine .bind (adds_canvasStream _) fun stream => .bind (adds_split .video stream) fun halves => ?_
  refine .bind ?_ fun _ => .pure _
  intro w w' b hc
  cases hc
  exact .refl _

/-- What is put together from single steps only adds to the graph. -/
theorem Composed.adds [Timescale τ] {c : Compile τ π β} (h : Composed c) : Adds c := by
  induction h with
  | pure b => exact .pure b
  | throw f => exact .throw f
  | bind _ _ ihc ihf => exact .bind ihc ihf
  | get_bind _ ihf => exact .get_bind ihf
  | join kind inputs filter => exact adds_join kind inputs filter
  | fork first second inputs filter => exact adds_fork first second inputs filter
  | canvas tag width height color => exact adds_canvas tag width height color
  | source path kind wantVideo wantAudio => exact adds_source path kind wantVideo wantAudio

end Compile

open Compile

variable [Timescale τ] [PixelCount π]

/-- A film is a scene that is compiled, and what is added to it. -/
theorem Film.exists_scene {root : Scene τ π} {resolution : Resolution} {w w' : Workshop τ π}
    {st : Streams} (h : streams root resolution w = .ok (st, w')) :
    ∃ st₁ w₁, compileScene root w = .ok (st₁, w₁) ∧ w₁.graph.Extends w'.graph := by
  obtain ⟨rest, heq, hrest⟩ := exists_rest root resolution
  rw [heq] at h
  obtain ⟨st₁, w₁, hscene, hafter⟩ := bind_eq_ok.1 h
  exact ⟨st₁, w₁, hscene, (hrest st₁).adds _ _ _ hafter⟩

theorem Film.adds_streams (root : Scene τ π) (resolution : Resolution) :
    Adds (streams root resolution) :=
  (composed_streams root resolution).adds

namespace Visits

mutual

/-- What was there when a node was compiled is there when the scene is. -/
theorem extends_scene : ∀ {scene : Scene τ π} {w w' : Workshop τ π} {call : Call τ π} {st : Streams},
    Visits scene w call → compileScene scene w = .ok (st, w') → call.after.graph.Extends w'.graph
  | _, _, _, _, _, .self h, hc => by
      rw [Call.Made, hc] at h
      cases h
      exact .refl _
  | .container tag style items, _, w', _, st, .sequence ho h, hc => by
      rw [compileScene, ho] at hc
      obtain ⟨p, w₁, hseq, hc⟩ := bind_eq_ok.1 hc
      obtain ⟨st', w₂, hfinish, hpad⟩ := bind_eq_ok.1 hc
      have hclosed := (Playlist.composed_finish style p).adds _ _ _ hfinish
      have hpadded := (Streams.composed_padded style st').adds _ _ _ hpad
      exact ((extends_sequence h hseq).trans hclosed).trans hpadded
  | .container tag style items, _, w', _, st, .parallel ho hm h, hc => by
      rw [compileScene, ho] at hc
      obtain ⟨m, w₁, hstart, hc⟩ := bind_eq_ok.1 hc
      obtain ⟨m', w₂, hpar, hc⟩ := bind_eq_ok.1 hc
      obtain ⟨st', w₃, hfinish, hpad⟩ := bind_eq_ok.1 hc
      rw [hm] at hstart
      cases hstart
      have hfilled := (Mixdown.composed_finish style m').adds _ _ _ hfinish
      have hpadded := (Streams.composed_padded style st').adds _ _ _ hpad
      exact ((extends_parallel h hpar).trans hfilled).trans hpadded

theorem extends_sequence : ∀ {tag : Tag} {style : Style τ π} {p p' : Playlist τ}
    {items : List (Scene τ π)} {w w' : Workshop τ π} {call : Call τ π},
    VisitsSequence tag style p items w call →
      compileSequence tag style p items w = .ok (p', w') → call.after.graph.Extends w'.graph
  | _, _, _, _, _, _, _, _, .here h, hc => by
      rw [compileSequence] at hc
      obtain ⟨st, w₁, hitem, hc⟩ := bind_eq_ok.1 hc
      obtain ⟨p, w₂, hadd, hc⟩ := bind_eq_ok.1 hc
      have hadded := (Playlist.composed_add _ _ _ _ _).adds _ _ _ hadd
      have hothers := (Composed.ite (.pure p) (composed_compileSequence _ _ p _)).adds _ _ _ hc
      exact ((extends_scene h hitem).trans hadded).trans hothers
  | _, _, _, _, _, _, _, _, .later hf hp he h, hc => by
      rw [compileSequence] at hc
      obtain ⟨st, w₁, hitem, hc⟩ := bind_eq_ok.1 hc
      rw [hf] at hitem
      cases hitem
      obtain ⟨p, w₂, hadd, hc⟩ := bind_eq_ok.1 hc
      rw [hp] at hadd
      cases hadd
      rw [he] at hc
      exact extends_sequence h hc

theorem extends_parallel : ∀ {style : Style τ π} {m m' : Mixdown π} {items : List (Scene τ π)}
    {w w' : Workshop τ π} {call : Call τ π}, VisitsParallel style m items w call →
      compileParallel style m items w = .ok (m', w') → call.after.graph.Extends w'.graph
  | _, _, _, _, _, _, _, .here h, hc => by
      rw [compileParallel] at hc
      obtain ⟨st, w₁, hitem, hc⟩ := bind_eq_ok.1 hc
      obtain ⟨st', w₂, hspaced, hc⟩ := bind_eq_ok.1 hc
      obtain ⟨m, w₃, hadd, hc⟩ := bind_eq_ok.1 hc
      have hheld := (Streams.composed_spaced _ _).adds _ _ _ hspaced
      have hadded := (Mixdown.composed_add _ _ _ _).adds _ _ _ hadd
      have hothers := (composed_compileParallel _ m _).adds _ _ _ hc
      exact (((extends_scene h hitem).trans hheld).trans hadded).trans hothers
  | _, _, _, _, _, _, _, .later hf hs hm h, hc => by
      rw [compileParallel] at hc
      obtain ⟨st, w₁, hitem, hc⟩ := bind_eq_ok.1 hc
      rw [hf] at hitem
      cases hitem
      obtain ⟨st', w₂, hspaced, hc⟩ := bind_eq_ok.1 hc
      rw [hs] at hspaced
      cases hspaced
      obtain ⟨m, w₃, hadd, hc⟩ := bind_eq_ok.1 hc
      rw [hm] at hadd
      cases hadd
      exact extends_parallel h hc

end

/-- What was there when a node was compiled is there in the film. -/
theorem extends_film {root : Scene τ π} {resolution : Resolution} {w w' : Workshop τ π}
    {call : Call τ π} {st : Streams} (h : Visits root w call)
    (hc : Film.streams root resolution w = .ok (st, w')) : call.after.graph.Extends w'.graph := by
  obtain ⟨st₁, w₁, hscene, hrest⟩ := Film.exists_scene hc
  exact (h.extends_scene hscene).trans hrest

end Visits
end Montage
