import Montage.Proofs.Scene.Boxes
import Montage.Proofs.Scene.Draft

/-!
# The normal form of a scene

In a built scene every unit is resolved.

**Input.** A document with a positive frame rate, and a probe.

**Algorithm.** Margins, paddings and times are made concrete when a style is resolved. A length or a
side that is still open then is filled in from the media or from the children, and nothing else is.

**Results.** `Document.isNormal_scene`: so it is in every node, what can be seen has both sides, and
what was concrete in the draft stays as it was.
-/

namespace Montage

variable {τ π : Type}

theorem Length.pixels?_of_isAuto {l : Length π} (h : l.isAuto = true) : l.pixels? = none := by
  cases l <;> first | rfl | cases h

namespace Style

/-- Every unit is resolved: a length is known or open, times are known, edges are in pixels, and a
side is in pixels or open. -/
structure IsNormal (s : Style τ π) : Prop where
  times : s.IsResolved
  box : s.IsMeasured
  margin : s.margin.IsConcrete

/-- A style keeps its edges, and the length and the sides that are concrete in another style. -/
structure Keeps (s r : Style τ π) : Prop where
  length : r.objectLength.IsKnown → s.objectLength = r.objectLength
  width : r.width.IsConcrete → s.width = r.width
  height : r.height.IsConcrete → s.height = r.height
  margin : s.margin = r.margin
  padding : s.padding = r.padding

variable [PixelCount π]

/-- The width of a leaf with a natural box: declared, in the shape of the media, or natural. -/
theorem width_fitSource {s : Style τ π} {w h : π} (hw : s.source.width = some w)
    (hh : s.source.height = some h) :
    s.fitSource.width =
      if s.width.pixels?.isSome then s.width
      else
        match s.height.pixels? with
        | some b =>
            if 0 < h then .pixel (nearestQuotient (b * w) h)
            else if s.width.isAuto then .pixel w else s.width
        | none => if s.width.isAuto then .pixel w else s.width := by
  have hopen : s.width.isAuto = true → s.width.pixels? = none := Length.pixels?_of_isAuto
  unfold fitSource
  rw [hw, hh]
  cases hwp : s.width.pixels? <;> cases s.height.pixels? <;>
    simp only [Option.isSome_some, Option.isSome_none, Bool.false_eq_true, if_true, if_false]
  all_goals repeat' split
  all_goals first
    | rfl
    | exact absurd (hwp.symm.trans (hopen ‹_›)) (by simp)

/-- The height of a leaf with a natural box: declared, in the shape of the media, or natural. -/
theorem height_fitSource {s : Style τ π} {w h : π} (hw : s.source.width = some w)
    (hh : s.source.height = some h) :
    s.fitSource.height =
      if s.height.pixels?.isSome then s.height
      else
        match s.width.pixels? with
        | some a =>
            if 0 < w then .pixel (nearestQuotient (a * h) w)
            else if s.height.isAuto then .pixel h else s.height
        | none => if s.height.isAuto then .pixel h else s.height := by
  have hopen : s.height.isAuto = true → s.height.pixels? = none := Length.pixels?_of_isAuto
  unfold fitSource
  rw [hw, hh]
  cases s.width.pixels? <;> cases hhp : s.height.pixels? <;>
    simp only [Option.isSome_some, Option.isSome_none, Bool.false_eq_true, if_true, if_false]
  all_goals repeat' split
  all_goals first
    | rfl
    | exact absurd (hhp.symm.trans (hopen ‹_›)) (by simp)

theorem fitSource_eq_self {s : Style τ π} (h : s.source.width = none ∨ s.source.height = none) :
    s.fitSource = s := by
  unfold fitSource
  rcases h with h | h
  · rw [h]
  · rw [h]
    cases s.source.width <;> rfl

theorem keeps_fitSource (s : Style τ π) : s.fitSource.Keeps s := by
  obtain ⟨width, height, heq⟩ := s.fitSource_eq
  refine ⟨fun _ => by rw [heq], ?_, ?_, by rw [heq], s.padding_fitSource⟩
  · rintro ⟨n, hn⟩
    cases hw : s.source.width with
    | none => rw [fitSource_eq_self (Or.inl hw)]
    | some w =>
        cases hh : s.source.height with
        | none => rw [fitSource_eq_self (Or.inr hh)]
        | some h => rw [width_fitSource hw hh, if_pos (by rw [hn]; rfl)]
  · rintro ⟨n, hn⟩
    cases hw : s.source.width with
    | none => rw [fitSource_eq_self (Or.inl hw)]
    | some w =>
        cases hh : s.source.height with
        | none => rw [fitSource_eq_self (Or.inr hh)]
        | some h => rw [height_fitSource hw hh, if_pos (by rw [hn]; rfl)]

/-- A side of a leaf stays open only if it was open. -/
theorem IsMeasured.leaf {s : Style τ π} (h : s.IsMeasured) : s.fitSource.IsMeasured := by
  cases hw : s.source.width with
  | none => rw [fitSource_eq_self (Or.inl hw)]; exact h
  | some w =>
      cases hh : s.source.height with
      | none => rw [fitSource_eq_self (Or.inr hh)]; exact h
      | some n =>
          have hsized := h.fitSource hw hh
          exact ⟨s.padding_fitSource ▸ h.padding, Or.inr hsized.width, Or.inr hsized.height⟩

variable [Timescale τ]

omit [Timescale τ] in
theorem settleExtent_of_isConcrete {s : Style τ π} {axis : Axis} (h : (s.extent axis).IsConcrete)
    (visible : List (Style τ π)) : s.settleExtent visible axis = s := by
  obtain ⟨n, hn⟩ := h
  rw [settleExtent, hn]
  rfl

theorem keeps_settle (s : Style τ π) (children visible : List (Style τ π)) :
    (s.settle children visible).Keeps s := by
  obtain ⟨width, height, heq⟩ := s.settle_eq children visible
  have hlength : ∃ length, s.settleLength children = { s with objectLength := length } ∧
      (s.objectLength.IsKnown → length = s.objectLength) := by
    unfold settleLength
    split
    · next h =>
        refine ⟨_, rfl, ?_⟩
        rintro ⟨x, hx⟩
        rw [hx] at h
        cases h
    · exact ⟨_, rfl, fun _ => rfl⟩
  obtain ⟨length, hlength, hknown⟩ := hlength
  refine ⟨fun h => ?_, fun h => ?_, fun h => ?_, ?_, s.padding_settle _ _⟩
  · rw [heq, hlength]
    exact hknown h
  · unfold settle
    rw [hlength]
    simp only
    split
    · rfl
    · rw [width_settleExtent, settleExtent_of_isConcrete]
      exact h
  · unfold settle
    rw [hlength]
    simp only
    split
    · rfl
    · rw [settleExtent_of_isConcrete, height_settleExtent]
      rw [extent, height_settleExtent]
      exact h
  · rw [heq, hlength]

theorem extent_settle_nil (s : Style τ π) (children : List (Style τ π)) (axis : Axis) :
    (s.settle children []).extent axis = s.extent axis := by
  unfold settle settleLength
  simp only [List.isEmpty_nil, if_true]
  cases axis <;> split <;> rfl

/-- A side of a container stays open only if it was open. -/
theorem IsMeasured.container {s : Style τ π} (h : s.IsMeasured)
    (children visible : List (Style τ π)) : (s.settle children visible).IsMeasured := by
  have hpadding : (s.settle children visible).padding.IsConcrete :=
    s.padding_settle children visible ▸ h.padding
  by_cases hv : visible = []
  · subst hv
    have hwidth : (s.settle children []).width = s.width :=
      s.extent_settle_nil children .horizontal
    have hheight : (s.settle children []).height = s.height :=
      s.extent_settle_nil children .vertical
    exact ⟨hpadding, hwidth ▸ h.width, hheight ▸ h.height⟩
  · have hsized := h.settle children hv
    exact ⟨hpadding, Or.inr hsized.width, Or.inr hsized.height⟩

theorem isNormal_styleOf (c : Styling τ) (h : 0 < c.frame.fps) (node : Node)
    (ancestors : List Identity) (parent : Option (Style τ π)) (facts : SourceFacts τ π) :
    (c.styleOf node ancestors parent facts).IsNormal :=
  ⟨isResolved_resolve _ _ _ h, isMeasured_resolve _ _ _ _,
    ⟨isConcrete_resolveEdge _ _ _, isConcrete_resolveEdge _ _ _, isConcrete_resolveEdge _ _ _,
      isConcrete_resolveEdge _ _ _⟩⟩

end Style

namespace Scene

/-- A node whose box is needed: media with a picture, or a container that can be seen. -/
def IsPicture : Scene τ π → Prop
  | leaf _ kind _ _ => kind = .video ∨ kind = .image
  | container _ _ items => anyVideo items = true

variable [PixelCount π]

theorem IsBoxed.isSized {cache : ProbeCache τ} {node : Scene τ π} (h : node.IsBoxed cache)
    (hp : node.IsPicture) : node.style.IsSized := by
  cases h with
  | leaf _ _ _ hs => rcases hp with rfl | rfl <;> exact hs rfl (by simp)
  | container _ hs => exact hs hp

variable [Timescale τ]

/-- A node of a draft keeps its edges when it is filled in, and all that is concrete. -/
theorem keeps_finish (part : Scene τ π) : part.finish.style.Keeps part.style := by
  cases part with
  | leaf => exact Style.keeps_fitSource _
  | container => exact Style.keeps_settle _ _ _

theorem isMeasured_finish {part : Scene τ π} (h : part.style.IsMeasured) :
    part.finish.style.IsMeasured := by
  cases part with
  | leaf => exact h.leaf
  | container => exact h.container _ _

end Scene

variable [Timescale τ] [PixelCount π]

/-- In a scene that was built every unit is resolved: lengths are known or open, times are known,
edges are in pixels, sides are in pixels or open, and what has a picture has both sides. A scene is
filled in from its draft, and what was concrete there stays as it was. -/
theorem Document.isNormal_scene {d : Document τ} {probe : Probe τ} {root : Scene τ π}
    (h : 0 < d.frame.fps) (hs : d.scene probe = .ok root) :
    (∀ node : Scene τ π, node.Within root →
      node.style.IsNormal ∧ (node.IsPicture → node.style.IsSized)) ∧
    ∃ draft, d.draft probe = .ok draft ∧ root = draft.finish ∧
      ∀ part : Scene τ π, part.Within draft → part.finish.style.Keeps part.style := by
  obtain ⟨draft, hdraft, hroot⟩ := exists_draft hs
  obtain ⟨cache, hboxed⟩ := exists_allBoxed hs
  refine ⟨fun node hnode => ?_, draft, hdraft, hroot, fun part _ => part.keeps_finish⟩
  have htimes := (isBuilt_scene h hs node hnode).resolved
  obtain ⟨part, hpart, rfl⟩ := Scene.exists_of_within_finish hnode hroot
  have hnormal : part.style.IsNormal := by
    have hany : (d.styling probe).Upholds d.baseDir d.root fun _ : Style τ π => True :=
      fun _ _ _ _ _ _ _ => trivial
    cases isStyled_draft hdraft hany part hpart with
    | leaf => exact Style.isNormal_styleOf _ h _ _ _ _
    | container => exact Style.isNormal_styleOf _ h _ _ _ _
  exact ⟨⟨htimes, Scene.isMeasured_finish hnormal.box,
    part.keeps_finish.margin ▸ hnormal.margin⟩, (hboxed _ hnode).isSized⟩

/-- A picture in half the width of the frame, and a text that is shown after it. -/
def gallery : Document Rat where
  baseDir := ⟨""⟩
  frame := ⟨⟨320, 180⟩, 25⟩
  sheet := .empty
  root :=
    ⟨.cont, [("style", "padding: 5%; time-padding: 10f")],
      [⟨.img, [("src", "a.png"), ("style", "object-length: 50%; width: 50%; margin: 1rw 2px")], [],
          none⟩,
        ⟨.txt, [("style", "object-length: 50f")], [], some "after"⟩], none⟩

def galleryProbe : Probe Rat := fun _ =>
  .ok ⟨none, some ⟨640, 480⟩, none⟩

theorem Document.isNormal_scene_gallery : ∃ root : Scene Rat Int,
    gallery.scene galleryProbe = .ok root ∧
      ∀ node : Scene Rat Int, node.Within root → node.style.IsNormal := by
  have hrun :
      ((gallery.scene galleryProbe).toOption.map fun _ : Scene Rat Int => ()) = some () := by
    decide +kernel
  obtain ⟨root, hroot⟩ : ∃ root : Scene Rat Int, gallery.scene galleryProbe = .ok root := by
    cases h : (gallery.scene galleryProbe : Except Failure (Scene Rat Int)) with
    | ok root => exact ⟨root, rfl⟩
    | error e => rw [h] at hrun; cases hrun
  have hnormal := (isNormal_scene (by decide) hroot).1
  exact ⟨root, hroot, fun node hnode => (hnormal node hnode).1⟩

end Montage
