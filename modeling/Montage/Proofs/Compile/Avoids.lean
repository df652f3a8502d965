import Montage.Compile.Leaf
import Montage.Proofs.Compile.Books

/-!
# What steps leave alone

Most steps of a compilation add neither overlays nor anything that winds media forward.

**Input.** A kind of filters, and a step of a compilation.

**Algorithm.** A step avoids a kind if no filter of that kind is among those that it adds. Steps in a
row avoid what each of them avoids.

**Results.**
* `Compile.Avoids.bind`: steps in a row, with what is known about their answers.
* `Compile.avoids_canvas`, `Streams.avoids_spaced`: canvases and margins avoid whatever is special.
-/

namespace Montage

variable {τ π β γ : Type}

namespace Filter

/-- Whether a filter lays a picture over another one. -/
def isOverlay : Filter τ π → Bool
  | overlay .. => true
  | _ => false

/-- How far a filter winds media forward, if it does. -/
def seek? : Filter τ π → Option τ
  | seek start => some start
  | _ => none

/-- Whether a filter winds media forward. -/
def isSeek (f : Filter τ π) : Bool :=
  f.seek?.isSome

/-- Whether a filter neither lays a picture over another one nor winds media forward. -/
def isOrdinary (f : Filter τ π) : Bool :=
  !f.isOverlay && !f.isSeek

theorem isOverlay_of_isOrdinary (f : Filter τ π) (h : f.isOrdinary = true) :
    f.isOverlay = false := by
  rw [isOrdinary, Bool.and_eq_true] at h
  simpa using h.1

theorem isSeek_of_isOrdinary (f : Filter τ π) (h : f.isOrdinary = true) : f.isSeek = false := by
  rw [isOrdinary, Bool.and_eq_true] at h
  simpa using h.2

end Filter

namespace Graph

/-- The stages of a graph with filters of a kind, in order. -/
def only (kind : Filter τ π → Bool) (g : Graph (Filter τ π)) : List (Stage (Filter τ π)) :=
  g.stages.filter fun s => kind s.filter

theorem only_push {kind : Filter τ π → Bool} {filter : Filter τ π} (h : kind filter = false)
    (g : Graph (Filter τ π)) (inputs : List Pad) (kinds : List StreamKind) :
    (g.push inputs filter kinds).2.only kind = g.only kind := by
  simp [only, push, h]

end Graph

namespace Compile

/-- A step adds no filter of a kind, and what it answers is as given. -/
def Avoids (kind : Filter τ π → Bool) (c : Compile τ π β) (given : β → Prop) : Prop :=
  ∀ w w' b, c w = .ok (b, w') → w'.graph.only kind = w.graph.only kind ∧ given b

variable {kind : Filter τ π → Bool}

namespace Avoids

variable {given : β → Prop} {given' : γ → Prop}

theorem pure {b : β} (h : given b) : Avoids kind (Pure.pure b) given := by
  intro w w' b' hc
  obtain ⟨rfl, rfl⟩ := pure_eq_ok.1 hc
  exact ⟨rfl, h⟩

theorem throw (f : Failure) : Avoids kind (MonadExcept.throw f) given := by
  intro w w' b hc
  cases hc

theorem bind {c : Compile τ π β} {f : β → Compile τ π γ} (h : Avoids kind c given)
    (hf : ∀ b, given b → Avoids kind (f b) given') : Avoids kind (c >>= f) given' := by
  intro w w'' b hc
  obtain ⟨a, w', ha, hb⟩ := bind_eq_ok.1 hc
  obtain ⟨hfirst, hgiven⟩ := h w w' a ha
  obtain ⟨hsecond, hgiven'⟩ := hf a hgiven w' w'' b hb
  exact ⟨hsecond.trans hfirst, hgiven'⟩

theorem ite {p : Prop} [Decidable p] {c d : Compile τ π β} (hc : Avoids kind c given)
    (hd : Avoids kind d given) : Avoids kind (if p then c else d) given := by
  split
  · exact hc
  · exact hd

/-- Changing a pad that may be there answers a pad if it is. -/
theorem mapM {f : Pad → Compile τ π Pad} (hf : ∀ p, Avoids kind (f p) fun _ => True)
    (p : Option Pad) : Avoids kind (p.mapM f) fun q => q.isSome = p.isSome := by
  cases p with
  | none => exact pure rfl
  | some p =>
      change Avoids kind (some <$> f p) _
      rw [map_eq_pure_bind]
      exact bind (hf p) fun _ _ => pure rfl

/-- A step comes after counts that are found. -/
theorem after_counted [PixelCount π] {ns : List π} {c : Compile τ π β} (h : Avoids kind c given) :
    Avoids kind (counted ns >>= fun _ => c) given :=
  fun w w' b hc => h w w' b (counted_bind_eq_ok.1 hc).2

theorem get_bind {f : Workshop τ π → Compile τ π β} (hf : ∀ w, Avoids kind (f w) given) :
    Avoids kind (MonadState.get >>= f) given :=
  fun w w' b hc => hf w w w' b hc

/-- Changing the spares adds nothing. -/
theorem modify {f : Workshop τ π → Workshop τ π} (h : ∀ w, (f w).graph = w.graph) :
    Avoids kind (modify f) fun _ => True := by
  intro w w' b hc
  cases hc
  rw [h]
  exact ⟨rfl, trivial⟩

end Avoids

theorem avoids_join {filter : Filter τ π} (h : kind filter = false) (stream : StreamKind)
    (inputs : List Pad) : Avoids kind (join stream inputs filter) fun _ => True := by
  intro w w' b hc
  cases hc
  exact ⟨w.graph.only_push h inputs [stream], trivial⟩

end Compile

/-! ### Steps with ordinary filters -/

open Compile

section

variable {kind : Filter τ π → Bool} (hk : ∀ f : Filter τ π, f.isOrdinary = true → kind f = false)

include hk

namespace Compile

theorem avoids_split (stream : StreamKind) (p : Pad) :
    Avoids kind (split stream p) fun _ => True := by
  intro w w' b hc
  cases hc
  exact ⟨w.graph.only_push (hk _ rfl) [p] [stream, stream], trivial⟩

/-- Files are opened and split, whatever is asked of them. -/
theorem avoids_source [Timescale τ] (path : Path) (media : MediaKind) (wantVideo wantAudio : Bool) :
    Avoids kind (source path media wantVideo wantAudio) fun _ => True := by
  have hspares : ∀ key wanted, Avoids kind (spares key wanted) fun _ => True := by
    intro key wanted w w' b hc
    rw [spares, Compile.get_bind] at hc
    cases ht : takeEntry key.same w.sources with
    | some found =>
        simp only [ht] at hc
        cases hc
        exact ⟨rfl, trivial⟩
    | none =>
        simp only [ht] at hc
        cases hc
        exact ⟨rfl, trivial⟩
  have hhand : ∀ stream wanted spare,
      Avoids kind (handOut stream wanted spare) fun _ => True := by
    intro stream wanted spare
    unfold handOut
    split
    · exact .bind (avoids_split hk _ _) fun _ _ => .pure trivial
    · exact .pure trivial
  refine .bind (hspares _ _) fun spares _ => ?_
  refine .bind (hhand _ _ _) fun video _ => .bind (hhand _ _ _) fun audio _ => ?_
  exact .bind (.modify fun w => rfl) fun _ _ => .pure trivial

variable [PixelCount π]

theorem avoids_canvasStream (key : CanvasKey π) :
    Avoids kind (canvasStream key) fun _ => True := by
  intro w w' b hc
  rw [canvasStream, Compile.get_bind] at hc
  cases ht : takeEntry (· == key) w.canvases with
  | some found =>
      simp only [ht] at hc
      cases hc
      exact ⟨rfl, trivial⟩
  | none =>
      simp only [ht] at hc
      exact Avoids.bind (avoids_join (hk _ rfl) .video [])
        (fun p _ => avoids_join (hk _ rfl) .video [p]) w w' b hc

theorem avoids_canvas (tag : Tag) (width height : Length π) (color : Option Color) :
    Avoids kind (canvas tag width height color) fun _ => True := by
  have hconcrete : ∀ property (l : Length π),
      Avoids kind (concrete tag property l) fun _ => True := by
    intro property l
    unfold concrete
    split
    · exact .pure trivial
    · exact .throw _
  refine .after_counted <| .bind (hconcrete _ width) fun w _ => .bind (hconcrete _ height) fun h _ => ?_
  refine .ite (.throw _) ?_
  refine .bind (avoids_canvasStream hk _) fun stream _ => ?_
  refine .bind (avoids_split hk .video stream) fun halves _ => ?_
  exact .bind (.modify fun w => rfl) fun _ _ => .pure trivial

end Compile

namespace Leaf

variable [PixelCount π]

theorem avoids_drawing [Timescale τ] (tag : Tag) (style : Style τ π) (text : String) :
    Avoids kind (drawing tag style text) fun _ => True :=
  .bind (avoids_canvas hk _ _ _ _) fun base _ => avoids_join (hk _ rfl) .video [base]

end Leaf

namespace Streams

omit hk in
theorem avoids_mapM {f g : Pad → Compile τ π Pad} (hf : ∀ p, Avoids kind (f p) fun _ => True)
    (hg : ∀ p, Avoids kind (g p) fun _ => True) (st : Streams) :
    Avoids kind (st.mapM f g) fun st' => st'.video.isSome = st.video.isSome :=
  .bind (.mapM hf st.video) fun _ hv => .bind (.mapM hg st.audio) fun _ _ => .pure hv

omit hk in
theorem avoids_apply {onVideo onAudio : Filter τ π} (hv : kind onVideo = false)
    (ha : kind onAudio = false) (st : Streams) :
    Avoids kind (st.apply onVideo onAudio) fun st' => st'.video.isSome = st.video.isSome :=
  avoids_mapM (fun p => avoids_join hv .video [p]) (fun p => avoids_join ha .audio [p]) st

variable [Timescale τ]

theorem avoids_delay (t : τ) (color : Option Color) (st : Streams) :
    Avoids kind (st.delay t color) fun st' => st'.video.isSome = st.video.isSome :=
  .ite (.pure rfl) (avoids_apply (hk _ rfl) (hk _ rfl) st)

theorem avoids_append (t : τ) (color : Option Color) (st : Streams) :
    Avoids kind (st.append t color) fun st' => st'.video.isSome = st.video.isSome :=
  .ite (.pure rfl) (avoids_apply (hk _ rfl) (hk _ rfl) st)

/-- What is held around the content leaves a picture a picture. -/
theorem avoids_around (isOpen : Bool) (lead trail : τ) (color : Option Color) (st : Streams) :
    Avoids kind (do
      let s ← st.delay lead color
      if isOpen then pure s else s.append trail color)
      fun st' => st'.video.isSome = st.video.isSome := by
  refine .bind (avoids_delay hk _ _ st) fun st' hst => .ite (.pure hst) ?_
  rw [← hst]
  exact avoids_append hk _ _ st'

theorem avoids_spaced (style : Style τ π) (st : Streams) :
    Avoids kind (st.spaced style) fun st' => st'.video.isSome = st.video.isSome :=
  avoids_around hk _ _ _ _ st

end Streams

namespace Leaf

variable [Timescale τ]

variable [PixelCount π]

end Leaf

end

end Montage
