import Montage.Preview.Still
import Montage.Proofs.Measure.Sums
import Montage.Proofs.Scene.Boxes

/-!
# Placement

Children stand inside the box that was settled for them.

**Input.** A container with open sides, and its children that can be seen.

**Algorithm.** The box of a container is summed up from its children (`Style.settle`), and the
children are placed in it later, by a flow or on layers of their own. What a flow has left to walk
is the same sum: `Flow.finish` does not change from step to step.

**Results.**
* `Flow.exists_last`: a flow leaves its last child exactly where the sum ends.
* `Flow.between`, `Flow.pairwise_apart`: children of a flow stand between its ends, one after the
  other.
* `Scene.settle_holds_children`: a container that is settled holds its children.
-/

namespace Montage

variable {τ π : Type}

/-- The coordinate of a point along an axis. -/
def Axis.coordinate : Axis → π × π → π
  | .horizontal, p => p.1
  | .vertical, p => p.2

/-- A child with the upper left corner of its padded box. -/
structure Placed (τ π : Type) where
  corner : π × π
  style : Style τ π

section

variable [PixelCount π]

namespace Placed

/-- Where the padded box of a child begins along an axis. -/
def near (b : Placed τ π) (axis : Axis) : π :=
  axis.coordinate b.corner

/-- Where the padded box of a child ends along an axis. -/
def far (b : Placed τ π) (axis : Axis) : π :=
  b.near axis + paddedExtent axis b.style

/-- Two boxes do not overlap: along one of the axes, one ends before the other begins. -/
def Apart (a b : Placed τ π) : Prop :=
  ∃ axis, a.far axis ≤ b.near axis ∨ b.far axis ≤ a.near axis

end Placed

namespace Style

/-- Where the box of a container begins along an axis, after its padding. -/
def innerNear (container : Style τ π) (axis : Axis) : π :=
  (container.padding.along axis false).1

/-- Where the box of a container ends along an axis, before its padding. -/
def innerFar (container : Style τ π) (axis : Axis) : π :=
  container.innerNear axis + (container.extent axis).pixelsOr 0

/-- The corners of the children of a container that can be seen: a single layer flows, other
children stand on layers of their own. -/
def corners (container : Style τ π) (flow : Flow π) (visible : List (Style τ π)) :
    List (π × π) :=
  if container.order = .parallel ∧ container.layerMode = .single then
    flow.placeAll visible
  else
    visible.map (layeredOffset container)

/-- The children of a container that can be seen, at their places. -/
def placed (container : Style τ π) (visible : List (Style τ π)) : List (Placed τ π) :=
  List.zipWith Placed.mk (container.corners (Flow.start container) visible) visible

/-- The padded box of a child lies in the box of a container, along an axis. -/
def Holds (container : Style τ π) (b : Placed τ π) (axis : Axis) : Prop :=
  container.innerNear axis ≤ b.near axis ∧ b.far axis ≤ container.innerFar axis

/-- The sides of a container are summed up from its children: end to end along the flow of a single
layer, and otherwise as large as the largest of them. -/
def IsSummed (container : Style τ π) (visible : List (Style τ π)) : Prop :=
  ∀ axis, container.extent axis =
    if container.flowAxis? = some axis then
      catenate axis container.direction.isReverse visible
    else
      pile axis visible

/-- No margin, padding or side is negative. -/
structure IsNonnegative (s : Style τ π) : Prop where
  margin : ∀ l ∈ s.margin.toList, 0 ≤ l.pixelsOr 0
  padding : ∀ l ∈ s.padding.toList, 0 ≤ l.pixelsOr 0
  side : ∀ l ∈ [s.width, s.height], 0 ≤ l.pixelsOr 0

instance (s : Style τ π) : Decidable s.IsNonnegative :=
  decidable_of_iff
    ((∀ l ∈ s.margin.toList, 0 ≤ l.pixelsOr 0) ∧ (∀ l ∈ s.padding.toList, 0 ≤ l.pixelsOr 0) ∧
      ∀ l ∈ [s.width, s.height], 0 ≤ l.pixelsOr 0)
    ⟨fun ⟨hm, hp, hs⟩ => ⟨hm, hp, hs⟩, fun ⟨hm, hp, hs⟩ => ⟨hm, hp, hs⟩⟩

end Style

/-! ### The places of compilation -/

/-- Where a film lays the children of a parallel that can be seen, one after the other. -/
def Mixdown.placeAll (container : Style τ π) (m : Mixdown π) : List (Style τ π) → List (π × π)
  | [] => []
  | s :: rest =>
      (m.place container s).1 ::
        placeAll container { m with flow := (m.place container s).2 } rest

/-- A film lays the children of a parallel at their corners. -/
theorem Style.corners_eq_placeAll (container : Style τ π) (h : container.order = .parallel)
    (m : Mixdown π) (visible : List (Style τ π)) :
    container.corners m.flow visible = m.placeAll container visible := by
  induction visible generalizing m with
  | nil => cases hl : container.layerMode <;> simp [corners, h, hl, Flow.placeAll, Mixdown.placeAll]
  | cons s rest ih =>
      rw [Mixdown.placeAll, ← ih]
      cases hl : container.layerMode <;> simp [corners, Mixdown.place, h, hl, Flow.placeAll]

/-- A still lays the children that can be seen at their corners. -/
theorem Style.corners_eq_places [Timescale τ] (container : Style τ π) (flow : Flow π)
    (items : List (Scene τ π)) :
    container.corners flow (Scene.visibleStyles items) =
      ((Still.places container flow items).zip items).filterMap fun (place, item) =>
        if item.hasVideo then place else none := by
  have hcons : ∀ (item : Scene τ π) (rest : List (Scene τ π)), Scene.visibleStyles (item :: rest) =
      if item.hasVideo then item.style :: Scene.visibleStyles rest
      else Scene.visibleStyles rest := by
    intro item rest
    rw [Scene.visibleStyles, List.filter_cons]
    split <;> rfl
  unfold corners
  induction items generalizing flow with
  | nil => split <;> rfl
  | cons item rest ih =>
      rw [hcons, Still.places_cons, Still.place]
      by_cases hs : container.order = .parallel ∧ container.layerMode = .single
      · simp only [if_pos hs] at ih ⊢
        cases hv : item.hasVideo <;> simp [hv, ih, Flow.placeAll]
      · simp only [if_neg hs] at ih ⊢
        cases hv : item.hasVideo <;> simp [hv, ← ih flow]

end

/-! ### Flows over whole numbers -/

theorem Axis.coordinate_point (f : Flow π) (main cross : π) :
    f.axis.coordinate (f.point main cross) = main := by
  unfold Flow.point
  cases f.axis <;> rfl

theorem Axis.cross_coordinate_point (f : Flow π) (main cross : π) :
    f.axis.cross.coordinate (f.point main cross) = cross := by
  unfold Flow.point
  cases f.axis <;> rfl

/-- A margin before, which is still to be met, and a total so far add to the sum. -/
theorem catenateFrom_eq_add [PixelCount π] [CommutativePixelCount π] (axis : Axis) (reverse : Bool)
    (total pending : π) (children : List (Style τ π)) :
    catenateFrom axis reverse total pending children =
      total + catenateFrom axis reverse 0 pending children := by
  induction children generalizing total pending with
  | nil => simp only [catenateFrom, CommutativePixelCount.zero_add]
  | cons s rest ih =>
      simp only [catenateFrom]
      rw [ih, ih (0 + _), CommutativePixelCount.zero_add, CommutativePixelCount.add_assoc]

namespace Style.IsNonnegative

variable {s : Style τ Int}

theorem along_margin (h : s.IsNonnegative) (axis : Axis) (reverse : Bool) :
    0 ≤ (s.margin.along axis reverse).1 ∧ 0 ≤ (s.margin.along axis reverse).2 := by
  have hm := h.margin
  simp only [Edges.toList, List.forall_mem_cons] at hm
  cases axis <;> cases reverse <;> simp [Edges.along, hm]

theorem paddedExtent (h : s.IsNonnegative) (axis : Axis) : 0 ≤ Montage.paddedExtent axis s := by
  have hp := h.padding
  have hs := h.side
  simp only [Edges.toList, List.forall_mem_cons] at hp hs
  cases axis
  · simp only [Montage.paddedExtent, Edges.along, extent, Bool.false_eq_true, if_false]
    omega
  · simp only [Montage.paddedExtent, Edges.along, extent, Bool.false_eq_true, if_false]
    omega

end Style.IsNonnegative

theorem catenateFrom_nonneg (axis : Axis) (reverse : Bool) (pending : Int)
    (children : List (Style τ Int)) (hp : 0 ≤ pending) (h : ∀ s ∈ children, s.IsNonnegative) :
    0 ≤ catenateFrom axis reverse 0 pending children := by
  induction children generalizing pending with
  | nil => simp only [catenateFrom]; omega
  | cons s rest ih =>
      obtain ⟨hs, hrest⟩ := List.forall_mem_cons.1 h
      have htail := ih _ (hs.along_margin axis reverse).2 hrest
      have hsize := hs.paddedExtent axis
      simp only [catenateFrom]
      rw [catenateFrom_eq_add]
      omega

namespace Flow

/-- The children of a flow at their places. -/
def placed (f : Flow π) [PixelCount π] (children : List (Style τ π)) : List (Placed τ π) :=
  List.zipWith Placed.mk (f.placeAll children) children

@[simp] theorem placed_nil (f : Flow π) [PixelCount π] :
    f.placed ([] : List (Style τ π)) = [] :=
  rfl

@[simp] theorem placed_cons (f : Flow π) [PixelCount π] (s : Style τ π) (rest : List (Style τ π)) :
    f.placed (s :: rest) = ⟨(f.place s).1, s⟩ :: (f.place s).2.placed rest :=
  rfl

/-- Where a flow ends that still has to place some children: what is summed up of them lies between
here and there. -/
def finish (f : Flow Int) (children : List (Style τ Int)) : Int :=
  if f.reverse then
    f.position - catenateFrom f.axis f.reverse 0 f.pending children
  else
    f.position + catenateFrom f.axis f.reverse 0 f.pending children

section

variable [PixelCount π] (f : Flow π) (s : Style τ π)

/-- What a child changes in a flow: the position, and the margin that is still to be met. -/
theorem snd_place : (f.place s).2 =
    { f with
      position :=
        if f.reverse then
          f.position - (max (s.margin.along f.axis f.reverse).1 f.pending + paddedExtent f.axis s)
        else
          f.position + max (s.margin.along f.axis f.reverse).1 f.pending + paddedExtent f.axis s
      pending := (s.margin.along f.axis f.reverse).2 } := by
  by_cases h : f.reverse = true
  · simp only [place, h, if_true, paddedExtent]
  · simp only [place, h, if_false, Bool.false_eq_true, paddedExtent]

/-- Along a flow a child begins after the gap, or where the flow has walked back to. -/
theorem main_place : f.axis.coordinate (f.place s).1 =
    if f.reverse then (f.place s).2.position
    else f.position + max (s.margin.along f.axis f.reverse).1 f.pending := by
  rw [snd_place]
  by_cases h : f.reverse = true
  · simp only [place, h, if_true, Axis.coordinate_point, paddedExtent]
  · simp only [place, h, if_false, Bool.false_eq_true, Axis.coordinate_point]

/-- Across the flow a child stands at its margin. -/
theorem cross_place :
    f.axis.cross.coordinate (f.place s).1 =
      f.crossPadding + (s.margin.along f.axis.cross false).1 := by
  unfold place
  cases f.reverse <;> simp only [Bool.false_eq_true, if_true, if_false, Axis.cross_coordinate_point]

end

variable (f : Flow Int) (s : Style τ Int)

/-- Where a flow ends does not depend on how far it has come. -/
theorem finish_place (rest : List (Style τ Int)) :
    (f.place s).2.finish rest = f.finish (s :: rest) := by
  rw [snd_place]
  simp only [finish, catenateFrom]
  rw [catenateFrom_eq_add _ _ (0 + _)]
  split <;> omega

/-- A flow leaves its last child, and the margin after it, exactly where it ends. -/
theorem exists_last (f : Flow Int) {children : List (Style τ Int)} (h : children ≠ []) :
    ∃ last, (f.placed children).getLast? = some last ∧
      f.finish children =
        if f.reverse then last.near f.axis - (last.style.margin.along f.axis true).2
        else last.far f.axis + (last.style.margin.along f.axis false).2 := by
  induction children generalizing f with
  | nil => exact absurd rfl h
  | cons s rest ih =>
      rw [placed_cons, ← finish_place]
      cases rest with
      | nil =>
          refine ⟨⟨(f.place s).1, s⟩, rfl, ?_⟩
          simp only [finish, catenateFrom, Placed.near, Placed.far, main_place, snd_place]
          by_cases hr : f.reverse = true
          · simp only [hr, if_true]
            omega
          · simp only [hr, Bool.false_eq_true, if_false]
            omega
      | cons t rest =>
          obtain ⟨last, hlast, hfinish⟩ := ih (f.place s).2 (List.cons_ne_nil t rest)
          refine ⟨last, ?_, ?_⟩
          · rw [placed_cons, List.getLast?_cons_cons, ← placed_cons, hlast]
          · rw [hfinish, snd_place]

theorem map_style_placed (f : Flow Int) (children : List (Style τ Int)) :
    (f.placed children).map Placed.style = children := by
  induction children generalizing f with
  | nil => rfl
  | cons s rest ih => rw [placed_cons, List.map_cons, ih]

theorem map_corner_placed (f : Flow Int) (children : List (Style τ Int)) :
    (f.placed children).map Placed.corner = f.placeAll children := by
  induction children generalizing f with
  | nil => rfl
  | cons s rest ih => rw [placed_cons, List.map_cons, ih, placeAll]

/-- Across a flow children stand at their margins. -/
theorem cross_placed (f : Flow Int) (children : List (Style τ Int)) :
    ∀ b ∈ f.placed children,
      b.near f.axis.cross = f.crossPadding + (b.style.margin.along f.axis.cross false).1 := by
  induction children generalizing f with
  | nil => simp
  | cons s rest ih =>
      have hlater := ih (f.place s).2
      rw [snd_place] at hlater
      rw [placed_cons, List.forall_mem_cons, snd_place]
      exact ⟨f.cross_place s, hlater⟩

/-- The place nearest to the start of the axis that a flow still reaches. -/
def low (f : Flow Int) (children : List (Style τ Int)) : Int :=
  if f.reverse then f.finish children else f.position

/-- The place farthest from the start of the axis that a flow still reaches. -/
def high (f : Flow Int) (children : List (Style τ Int)) : Int :=
  if f.reverse then f.position else f.finish children

theorem low_le_high {f : Flow Int} {children : List (Style τ Int)} (hp : 0 ≤ f.pending)
    (h : ∀ child ∈ children, child.IsNonnegative) : f.low children ≤ f.high children := by
  have hsum := catenateFrom_nonneg f.axis f.reverse f.pending children hp h
  unfold low high finish
  split <;> omega

/-- The first child of a flow stands between its ends, and what the flow still reaches lies on one
side of the child. -/
theorem place_between {f : Flow Int} (hp : 0 ≤ f.pending) (s : Style τ Int)
    (rest : List (Style τ Int)) :
    let first : Placed τ Int := ⟨(f.place s).1, s⟩
    (f.low (s :: rest) ≤ first.near f.axis ∧ first.far f.axis = (f.place s).2.low rest ∧
        (f.place s).2.high rest = f.high (s :: rest)) ∨
      ((f.place s).2.low rest = f.low (s :: rest) ∧ (f.place s).2.high rest = first.near f.axis ∧
        first.far f.axis ≤ f.high (s :: rest)) := by
  simp only [low, high, Placed.near, Placed.far, finish_place, main_place]
  rw [snd_place]
  by_cases hr : f.reverse = true
  · refine Or.inr ⟨by simp only [hr, if_true], by simp only [hr, if_true], ?_⟩
    simp only [hr, if_true]
    omega
  · refine Or.inl ⟨?_, by simp only [hr, if_false, Bool.false_eq_true],
      by simp only [hr, if_false, Bool.false_eq_true]⟩
    simp only [hr, if_false, Bool.false_eq_true]
    omega

/-- Children of a flow stand between its ends. -/
theorem between {f : Flow Int} {children : List (Style τ Int)} (hp : 0 ≤ f.pending)
    (h : ∀ child ∈ children, child.IsNonnegative) :
    ∀ b ∈ f.placed children, f.low children ≤ b.near f.axis ∧ b.far f.axis ≤ f.high children := by
  induction children generalizing f with
  | nil => simp
  | cons s rest ih =>
      obtain ⟨hs, hrest⟩ := List.forall_mem_cons.1 h
      have hpending : 0 ≤ (f.place s).2.pending := by
        rw [snd_place]
        exact (hs.along_margin f.axis f.reverse).2
      have hends := low_le_high hpending hrest
      have hsize := hs.paddedExtent f.axis
      have hlater := ih hpending hrest
      rw [show (f.place s).2.axis = f.axis by rw [snd_place]] at hlater
      have hfirst := place_between hp s rest
      rw [placed_cons, List.forall_mem_cons]
      simp only [Placed.far] at hfirst hlater ⊢
      refine ⟨by rcases hfirst with hfirst | hfirst <;> omega, fun b hb => ?_⟩
      have hb := hlater b hb
      rcases hfirst with hfirst | hfirst <;> omega

/-- Children of a flow do not overlap: each ends before the next begins, in the direction of the
flow. -/
theorem pairwise_apart {f : Flow Int} {children : List (Style τ Int)} (hp : 0 ≤ f.pending)
    (h : ∀ child ∈ children, child.IsNonnegative) :
    (f.placed children).Pairwise Placed.Apart := by
  induction children generalizing f with
  | nil => exact List.Pairwise.nil
  | cons s rest ih =>
      obtain ⟨hs, hrest⟩ := List.forall_mem_cons.1 h
      have hpending : 0 ≤ (f.place s).2.pending := by
        rw [snd_place]
        exact (hs.along_margin f.axis f.reverse).2
      rw [placed_cons]
      refine List.pairwise_cons.2 ⟨fun b hb => ⟨f.axis, ?_⟩, ih hpending hrest⟩
      have hlater := between hpending hrest b hb
      rw [show (f.place s).2.axis = f.axis by rw [snd_place]] at hlater
      rcases place_between hp s rest with ⟨_, hfar, _⟩ | ⟨_, hnear, _⟩
      · exact Or.inl (Int.le_trans (Int.le_of_eq hfar) hlater.1)
      · exact Or.inr (Int.le_trans hlater.2 (Int.le_of_eq hnear))

end Flow

/-! ### Containers -/

theorem le_foldl_max (ns : List Int) (n : Int) :
    n ≤ ns.foldl max n ∧ ∀ m ∈ ns, m ≤ ns.foldl max n := by
  induction ns generalizing n with
  | nil => simp
  | cons k ks ih =>
      have hk := ih (max n k)
      rw [List.foldl_cons, List.forall_mem_cons]
      exact ⟨by omega, by omega, hk.2⟩

theorem le_greatest {ns : List Int} {n : Int} (h : n ∈ ns) : n ≤ greatest ns := by
  cases ns with
  | nil => cases h
  | cons k ks =>
      rcases List.mem_cons.1 h with rfl | h
      · exact (le_foldl_max ks n).1
      · exact (le_foldl_max ks k).2 n h

namespace Style

variable [Timescale τ]

section

variable [PixelCount π] {s : Style τ π} {visible : List (Style τ π)}

omit [Timescale τ] in
theorem extent_settleExtent (axis : Axis) (ho : s.extent axis = .auto) :
    (s.settleExtent visible axis).extent axis =
      if s.flowAxis? = some axis then catenate axis s.direction.isReverse visible
      else pile axis visible := by
  have hset : ∀ l : Length π, (s.setExtent axis l).extent axis = l := by
    intro l
    cases axis <;> rfl
  rw [settleExtent, ho, Length.isAuto, if_pos rfl, hset]

theorem flow_settle (s : Style τ π) (children visible : List (Style τ π)) :
    (s.settle children visible).flowAxis? = s.flowAxis? ∧
      (s.settle children visible).direction = s.direction := by
  obtain ⟨width, height, hsettle⟩ := s.settle_eq children visible
  rw [hsettle]
  unfold settleLength
  split <;> exact ⟨rfl, rfl⟩

/-- An open side of a container that can be seen is summed up from its children. -/
theorem extent_settle {axis : Axis} (ho : s.extent axis = .auto) (children : List (Style τ π))
    (hv : visible ≠ []) : (s.settle children visible).extent axis =
      if s.flowAxis? = some axis then catenate axis s.direction.isReverse visible
      else pile axis visible := by
  have hlength : ∃ length, s.settleLength children = { s with objectLength := length } := by
    unfold settleLength
    split <;> exact ⟨_, rfl⟩
  obtain ⟨length, hlength⟩ := hlength
  obtain ⟨width, height, hfirst⟩ :=
    settleExtent_eq ({ s with objectLength := length }) visible .horizontal
  have hne : visible.isEmpty = false := by simpa using hv
  simp only [settle, hlength, hne, Bool.false_eq_true, if_false]
  cases axis with
  | horizontal =>
      rw [extent, width_settleExtent]
      exact extent_settleExtent (s := { s with objectLength := length }) .horizontal ho
  | vertical =>
      rw [extent_settleExtent]
      · rw [hfirst]
        rfl
      · rw [extent, height_settleExtent]
        exact ho

/-- A container that can be seen and has no sides of its own is summed up from its children. -/
theorem isSummed_settle (hw : s.width = .auto) (hh : s.height = .auto)
    (children : List (Style τ π)) (hv : visible ≠ []) :
    (s.settle children visible).IsSummed visible := by
  obtain ⟨hflow, hdirection⟩ := s.flow_settle children visible
  intro axis
  rw [hflow, hdirection]
  refine extent_settle ?_ children hv
  cases axis with
  | horizontal => exact hw
  | vertical => exact hh

end

omit [Timescale τ]

variable {c : Style τ Int} {visible : List (Style τ Int)}

theorem placed_flow (h : c.order = .parallel ∧ c.layerMode = .single) :
    c.placed visible = (Flow.start c).placed visible := by
  rw [placed, corners, if_pos h]
  rfl

theorem placed_layered (h : ¬(c.order = .parallel ∧ c.layerMode = .single)) :
    c.placed visible = visible.map fun s => ⟨layeredOffset c s, s⟩ := by
  rw [placed, corners, if_neg h, List.zipWith_map_left, List.zipWith_self]

theorem map_style_placed (c : Style τ Int) (visible : List (Style τ Int)) :
    (c.placed visible).map Placed.style = visible := by
  by_cases h : c.order = .parallel ∧ c.layerMode = .single
  · rw [placed_flow h]
    exact Flow.map_style_placed _ visible
  · rw [placed_layered h, List.map_map]
    exact List.map_id visible

theorem map_corner_placed (c : Style τ Int) (visible : List (Style τ Int)) :
    (c.placed visible).map Placed.corner = c.corners (Flow.start c) visible := by
  by_cases h : c.order = .parallel ∧ c.layerMode = .single
  · rw [placed_flow h, corners, if_pos h]
    exact Flow.map_corner_placed _ visible
  · rw [placed_layered h, corners, if_neg h, List.map_map]
    rfl

/-- Children of a single layer that are not negative do not overlap. -/
theorem pairwise_placed (h : c.order = .parallel ∧ c.layerMode = .single)
    (hn : ∀ child ∈ visible, child.IsNonnegative) : (c.placed visible).Pairwise Placed.Apart := by
  rw [placed_flow h]
  exact Flow.pairwise_apart (Int.le_refl 0) hn

/-- A child that stands at its margin lies in a box that is as large as the largest child. -/
theorem holds_of_pile {b : Placed τ Int} {axis : Axis} (hb : b.style ∈ visible)
    (hn : b.style.IsNonnegative) (hnear : b.near axis =
      c.innerNear axis + (b.style.margin.along axis false).1)
    (hsize : c.extent axis = pile axis visible) : c.Holds b axis := by
  have hpile : footprintExtent axis b.style ≤ greatest (visible.map (footprintExtent axis)) :=
    le_greatest (List.mem_map_of_mem hb)
  have hmargin := hn.along_margin axis false
  simp only [Holds, innerFar, Placed.far, hnear, hsize, pile, Length.pixelsOr_pixel]
  simp only [footprintExtent] at hpile
  omega

namespace IsSummed

variable (h : c.IsSummed visible)
include h

/-- A flow through a box that is summed up ends at the other end of the box. -/
theorem finish_start (hf : c.order = .parallel ∧ c.layerMode = .single) :
    (Flow.start c).finish visible =
      if c.direction.isReverse then c.innerNear c.direction.axis
      else c.innerFar c.direction.axis := by
  have hmain := h c.direction.axis
  rw [flowAxis?, if_pos hf, if_pos rfl] at hmain
  simp only [Flow.finish, Flow.start, innerFar, innerNear, hmain, catenate, Length.pixelsOr_pixel]
  split <;> omega

/-- The last child of a single layer stands at the end of its box, but for its margin. -/
theorem exists_last (hv : visible ≠ []) (hf : c.order = .parallel ∧ c.layerMode = .single) :
    ∃ last, (c.placed visible).getLast? = some last ∧
      if c.direction.isReverse then
        last.near c.direction.axis - (last.style.margin.along c.direction.axis true).2 =
          c.innerNear c.direction.axis
      else
        last.far c.direction.axis + (last.style.margin.along c.direction.axis false).2 =
          c.innerFar c.direction.axis := by
  obtain ⟨last, hlast, hfinish⟩ := (Flow.start c).exists_last hv
  rw [h.finish_start hf] at hfinish
  refine ⟨last, by rw [placed_flow hf]; exact hlast, ?_⟩
  by_cases hr : c.direction.isReverse = true
  · simpa only [Flow.start, hr, if_true] using hfinish.symm
  · simpa only [Flow.start, hr, Bool.false_eq_true, if_false] using hfinish.symm

/-- The flow through a box that is summed up walks from one end of the box to the other. -/
theorem ends_start (hf : c.order = .parallel ∧ c.layerMode = .single) :
    (Flow.start c).low visible = c.innerNear c.direction.axis ∧
      (Flow.start c).high visible = c.innerFar c.direction.axis := by
  rw [Flow.low, Flow.high, h.finish_start hf]
  by_cases hr : c.direction.isReverse = true
  · simp only [Flow.start, hr, if_true]
    exact ⟨trivial, rfl⟩
  · simp only [Flow.start, hr, Bool.false_eq_true, if_false]
    exact ⟨rfl, trivial⟩

/-- Children that are not negative lie in a box that is summed up from them. -/
theorem holds (hn : ∀ child ∈ visible, child.IsNonnegative) :
    ∀ b ∈ c.placed visible, ∀ axis, c.Holds b axis := by
  intro b hb axis
  have hstyle : b.style ∈ visible := by
    rw [← c.map_style_placed visible]
    exact List.mem_map_of_mem hb
  have hsize := h axis
  by_cases hf : c.order = .parallel ∧ c.layerMode = .single
  · rw [placed_flow hf] at hb
    rw [flowAxis?, if_pos hf] at hsize
    by_cases haxis : c.direction.axis = axis
    · subst haxis
      obtain ⟨hlow, hhigh⟩ := h.ends_start hf
      have hbetween := Flow.between (Int.le_refl 0) hn b hb
      rw [hlow, hhigh] at hbetween
      exact hbetween
    · have hcross : axis = c.direction.axis.cross := by
        cases axis <;> cases hd : c.direction.axis <;> simp_all [Axis.cross]
      rw [if_neg (by simpa using haxis)] at hsize
      subst hcross
      exact holds_of_pile hstyle (hn _ hstyle) (Flow.cross_placed _ visible b hb) hsize
  · rw [placed_layered hf, List.mem_map] at hb
    rw [flowAxis?, if_neg hf, if_neg (by simp)] at hsize
    obtain ⟨s, hs, rfl⟩ := hb
    refine holds_of_pile hstyle (hn _ hstyle) ?_ hsize
    cases axis <;> rfl

end IsSummed

end Style

/-- A container that can be seen and has no sides of its own holds its children once it is settled:
a single layer fills it exactly, from the first margin to the last; and where nothing is negative,
the padded box of every child lies in the box of the container, and children of a single layer do
not overlap. Stills lay the children at the same places, and so do films. -/
theorem Scene.settle_holds_children [Timescale τ] (tag : Tag) (s : Style τ Int)
    (items : List (Scene τ Int)) (hw : s.width = .auto) (hh : s.height = .auto)
    (hv : anyVideo items = true) :
    let c := (container tag s items).settle.style
    let boxes := c.placed (visibleStyles items)
    let axis := c.direction.axis
    boxes.map Placed.style = visibleStyles items ∧
    boxes.map Placed.corner =
      (((Still.places c (Flow.start c) items).zip items).filterMap fun (place, item) =>
        if item.hasVideo then place else none) ∧
    (c.order = .parallel → ∀ m : Mixdown Int, m.flow = Flow.start c →
      boxes.map Placed.corner = m.placeAll c (visibleStyles items)) ∧
    (c.order = .parallel → c.layerMode = .single →
      ∃ last, boxes.getLast? = some last ∧
        if c.direction.isReverse then
          last.near axis - (last.style.margin.along axis true).2 = c.innerNear axis
        else
          last.far axis + (last.style.margin.along axis false).2 = c.innerFar axis) ∧
    ((∀ child ∈ visibleStyles items, child.IsNonnegative) →
      (∀ b ∈ boxes, ∀ axis, c.Holds b axis) ∧
      (c.order = .parallel → c.layerMode = .single → boxes.Pairwise Placed.Apart)) := by
  have hne := visibleStyles_ne_nil hv
  have hsum := Style.isSummed_settle hw hh (items.map style) hne
  refine ⟨Style.map_style_placed _ _, ?_, fun ho m hm => ?_,
    fun ho hl => hsum.exists_last hne ⟨ho, hl⟩,
    fun hn => ⟨hsum.holds hn, fun ho hl => Style.pairwise_placed ⟨ho, hl⟩ hn⟩⟩
  · rw [Style.map_corner_placed, Style.corners_eq_places]
  · rw [Style.map_corner_placed, ← hm, Style.corners_eq_placeAll _ ho]

/-! ### A shelf -/

/-- The style of a shelf: its books stand in a row, from the right. -/
def shelf : Style Rat Int :=
  { Style.initial with order := .parallel, layerMode := .single, direction := .rowReverse }

/-- A book of a width, with margins around it. -/
def book (width margin : Int) : Scene Rat Int :=
  .leaf .txt .text (.text "book")
    { Style.initial with
      width := .pixel width, height := .pixel 7, margin := .uniform (.pixel margin) }

/-- The books of a shelf. -/
def books : List (Scene Rat Int) :=
  [book 3 1, book 5 2, book 4 1]

theorem shelf_settle_holds_children :
    let c := (Scene.container .prl shelf books).settle.style
    let boxes := c.placed (Scene.visibleStyles books)
    (∃ last, boxes.getLast? = some last ∧
      last.near .horizontal - (last.style.margin.along .horizontal true).2 =
        c.innerNear .horizontal) ∧
      (∀ b ∈ boxes, ∀ axis, c.Holds b axis) ∧ boxes.Pairwise Placed.Apart := by
  obtain ⟨-, -, -, hlast, hheld⟩ :=
    Scene.settle_holds_children .prl shelf books rfl rfl (by decide)
  obtain ⟨hholds, hapart⟩ := hheld (by decide)
  exact ⟨hlast rfl rfl, hholds, hapart rfl rfl⟩

end Montage
