import Montage.Proofs.Layout.Placement
import Montage.Proofs.Scene.Normal
import Montage.Proofs.Style.Nonnegative

/-!
# Room

What can be seen has a box with room in it, unless a part of the draft loses a side.

**Input.** The draft of a document in which nothing is negative.

**Algorithm.** A box is filled in from the leaves up. A container that is settled has room because
its children have; so room is only lost where a side is declared, where the media are put into the
shape of a declared side, or where a text has no box of its own.

**Results.** `Scene.hasRoom_finish_iff`: all that can be seen has room if and only if no part of the
draft loses a side.
-/

namespace Montage

variable {τ π : Type}

theorem Axis.forall_iff {P : Axis → Prop} : (∀ axis, P axis) ↔ P .horizontal ∧ P .vertical :=
  ⟨fun h => ⟨h _, h _⟩, fun ⟨hh, hv⟩ axis => by cases axis <;> assumption⟩

namespace Style

/-- The natural box of the media, where both of its sides are known. -/
def naturalBox? (s : Style τ π) : Option (π × π) :=
  s.source.width.bind fun w => s.source.height.map fun h => (w, h)

theorem naturalBox?_eq_some {s : Style τ π} {box : π × π} :
    s.naturalBox? = some box ↔ s.source.width = some box.1 ∧ s.source.height = some box.2 := by
  unfold naturalBox?
  cases s.source.width <;> cases s.source.height <;> simp [Prod.ext_iff]

theorem naturalBox?_eq_none {s : Style τ π} :
    s.naturalBox? = none ↔ s.source.width = none ∨ s.source.height = none := by
  unfold naturalBox?
  cases s.source.width <;> cases s.source.height <;> simp

section

variable [PixelCount π]

/-- Both sides are in pixels, and with the paddings they are positive. -/
structure HasRoom (s : Style τ π) : Prop where
  sized : s.IsSized
  padded : ∃ w h, s.paddedWidth = .pixel w ∧ s.paddedHeight = .pixel h ∧ 0 < w ∧ 0 < h

omit [PixelCount π] in
theorem Keeps.extent {s r : Style τ π} (h : s.Keeps r) {axis : Axis}
    (hr : (r.extent axis).IsConcrete) : s.extent axis = r.extent axis := by
  cases axis with
  | horizontal => exact h.width hr
  | vertical => exact h.height hr

/-- An open side of a leaf is natural, or in the shape of the media if the other is declared. -/
theorem extent_fitSource {s : Style τ π} {box : π × π} (hb : s.naturalBox? = some box) {axis : Axis}
    (ho : s.extent axis = .auto) :
    s.fitSource.extent axis = .pixel
      (match (s.extent axis.cross).pixels? with
      | some n =>
          if 0 < axis.cross.coordinate box then
            nearestQuotient (n * axis.coordinate box) (axis.cross.coordinate box)
          else axis.coordinate box
      | none => axis.coordinate box) := by
  obtain ⟨hw, hh⟩ := naturalBox?_eq_some.1 hb
  have hopen : (Length.auto : Length π).pixels? = none ∧ (Length.auto : Length π).isAuto = true :=
    ⟨rfl, rfl⟩
  cases axis with
  | horizontal =>
      simp only [extent, Axis.cross, Axis.coordinate] at ho ⊢
      rw [width_fitSource hw hh, ho, hopen.1, hopen.2, if_neg (by simp), if_pos rfl]
      cases s.height.pixels? with
      | none => rfl
      | some n => exact (apply_ite Length.pixel _ _ _).symm
  | vertical =>
      simp only [extent, Axis.cross, Axis.coordinate] at ho ⊢
      rw [height_fitSource hw hh, ho, hopen.1, hopen.2, if_neg (by simp), if_pos rfl]
      cases s.width.pixels? with
      | none => rfl
      | some n => exact (apply_ite Length.pixel _ _ _).symm

omit [PixelCount π] in
theorem IsMeasured.extent {s : Style τ π} (h : s.IsMeasured) (axis : Axis) :
    s.extent axis = .auto ∨ (s.extent axis).IsConcrete := by
  cases axis with
  | horizontal => exact h.width
  | vertical => exact h.height

end

section

variable {s : Style τ Int}

theorem IsMeasured.paddedWidth (h : s.IsMeasured) {n : Int} (hn : s.width = .pixel n) :
    s.paddedWidth = .pixel (paddedExtent .horizontal s) := by
  obtain ⟨⟨-, ⟨r, hr⟩, -, ⟨l, hl⟩⟩, -, -⟩ := h
  simp only [Style.paddedWidth, paddedExtent, Edges.along, Style.extent, hn, hl, hr,
    Length.pixel_add_pixel, Length.pixelsOr_pixel, Bool.false_eq_true, if_false]
  rw [Int.add_comm n l]

theorem IsMeasured.paddedHeight (h : s.IsMeasured) {n : Int} (hn : s.height = .pixel n) :
    s.paddedHeight = .pixel (paddedExtent .vertical s) := by
  obtain ⟨⟨⟨t, ht⟩, -, ⟨b, hb⟩, -⟩, -, -⟩ := h
  simp only [Style.paddedHeight, paddedExtent, Edges.along, Style.extent, hn, ht, hb,
    Length.pixel_add_pixel, Length.pixelsOr_pixel, Bool.false_eq_true, if_false]
  rw [Int.add_comm n t]

/-- A box has room if it has along both axes. -/
theorem IsMeasured.hasRoom_iff (h : s.IsMeasured) :
    s.HasRoom ↔ ∀ axis, (s.extent axis).IsConcrete ∧ 0 < paddedExtent axis s := by
  constructor
  · rintro ⟨⟨⟨w, hw⟩, n, hn⟩, pw, ph, hpw, hph, hwpos, hhpos⟩ axis
    rw [h.paddedWidth hw] at hpw
    rw [h.paddedHeight hn] at hph
    cases hpw
    cases hph
    cases axis with
    | horizontal => exact ⟨⟨w, hw⟩, hwpos⟩
    | vertical => exact ⟨⟨n, hn⟩, hhpos⟩
  · intro hroom
    obtain ⟨⟨w, hw⟩, hwpos⟩ := hroom .horizontal
    obtain ⟨⟨n, hn⟩, hhpos⟩ := hroom .vertical
    exact ⟨⟨⟨w, hw⟩, n, hn⟩, _, _, h.paddedWidth hw, h.paddedHeight hn, hwpos, hhpos⟩

end

end Style

/-! ### Sides that are lost -/

namespace Style

/-- There is no padding along an axis. -/
def IsBare (s : Style τ Int) (axis : Axis) : Prop :=
  (s.padding.along axis false).1 + (s.padding.along axis false).2 = 0

/-- The natural box has no pixels along an axis. -/
def IsBlank (s : Style τ Int) (axis : Axis) : Prop :=
  ∃ box ∈ s.naturalBox?, axis.coordinate box = 0

/-- In the shape of the media, whose other side is declared, there is less than half a pixel along
an axis. -/
def IsThin (s : Style τ Int) (axis : Axis) : Prop :=
  ∃ box ∈ s.naturalBox?, ∃ n ∈ (s.extent axis.cross).pixels?,
    2 * (n * axis.coordinate box) < axis.cross.coordinate box

instance (s : Style τ Int) (axis : Axis) : Decidable (s.IsBare axis) :=
  inferInstanceAs (Decidable (_ = _))

instance (s : Style τ Int) (axis : Axis) : Decidable (s.IsBlank axis) :=
  inferInstanceAs (Decidable (∃ box ∈ s.naturalBox?, _))

instance (s : Style τ Int) (axis : Axis) : Decidable (s.IsThin axis) :=
  inferInstanceAs (Decidable (∃ box ∈ s.naturalBox?, ∃ n ∈ (s.extent axis.cross).pixels?, _))

end Style

/-- A part of a draft loses its side along an axis. Without padding, that is a side that is declared
and has no pixels, and the open side of a leaf that is too thin or the side of a blank text. An open
side of a text whose natural box is not known is lost with any padding. -/
def Scene.LosesSide (axis : Axis) : Scene τ Int → Prop
  | container _ s _ => s.IsBare axis ∧ (s.extent axis).pixels? = some 0
  | leaf _ kind _ s =>
      s.IsBare axis ∧ ((s.extent axis).pixels? = some 0 ∨
        (s.extent axis).isAuto = true ∧ (s.IsThin axis ∨ kind = .text ∧ s.IsBlank axis)) ∨
      kind = .text ∧ (s.extent axis).isAuto = true ∧ s.naturalBox? = none

instance (axis : Axis) : DecidablePred (Scene.LosesSide (τ := τ) axis)
  | .container .. => inferInstanceAs (Decidable (_ ∧ _))
  | .leaf .. => inferInstanceAs (Decidable (_ ∧ (_ ∨ _ ∧ (_ ∨ _ ∧ _)) ∨ _ ∧ _ ∧ _))

/-! ### Leaves -/

namespace Style

theorem nearestQuotient_nonneg {a m : Int} (ha : 0 ≤ a) (hm : 0 < m) : 0 ≤ nearestQuotient a m := by
  have hhalf : (0 : Int) ≤ Int.tdiv m 2 := Int.tdiv_nonneg (by omega) (by omega)
  exact Int.tdiv_nonneg (Int.add_nonneg ha hhalf) (by omega)

/-- A quotient to the nearest is zero if it is less than a half. -/
theorem nearestQuotient_eq_zero_iff {a m : Int} (ha : 0 ≤ a) (hm : 0 < m) :
    nearestQuotient a m = 0 ↔ 2 * a < m := by
  have hhalf : Int.tdiv m 2 = m / 2 := Int.tdiv_eq_ediv_of_nonneg (by omega)
  change Int.tdiv (a + Int.tdiv m 2) m = 0 ↔ _
  rw [hhalf, Int.tdiv_eq_ediv_of_nonneg (by omega)]
  have hnonneg : 0 ≤ (a + m / 2) / m := Int.ediv_nonneg (by omega) (by omega)
  have hone : (a + m / 2) / m < 1 ↔ a + m / 2 < 1 * m := Int.ediv_lt_iff_lt_mul hm
  omega

variable {s : Style τ Int} {axis : Axis}

theorem along_padding_nonneg (h : ∀ l ∈ s.padding.toList, l.IsNonneg) (axis : Axis) :
    0 ≤ (s.padding.along axis false).1 ∧ 0 ≤ (s.padding.along axis false).2 := by
  simp only [Edges.toList, List.forall_mem_cons] at h
  obtain ⟨ht, hr, hb, hl, -⟩ := h
  cases axis with
  | horizontal => exact ⟨hl.pixelsOr, hr.pixelsOr⟩
  | vertical => exact ⟨ht.pixelsOr, hb.pixelsOr⟩

/-- A side that is not negative has room unless there are neither pixels nor padding. -/
theorem Keeps.paddedExtent_pos_iff {r : Style τ Int} (h : r.Keeps s) (hs : s.NothingNegative)
    {n : Int} (hr : r.extent axis = .pixel n) (hn : 0 ≤ n) :
    0 < paddedExtent axis r ↔ ¬(s.IsBare axis ∧ n = 0) := by
  obtain ⟨hlead, htrail⟩ := along_padding_nonneg hs.padding axis
  simp only [paddedExtent, IsBare, hr, h.padding, Length.pixelsOr_pixel]
  omega

theorem NothingNegative.extent (h : s.NothingNegative) (axis : Axis) :
    (s.extent axis).IsNonneg := by
  cases axis with
  | horizontal => exact h.width
  | vertical => exact h.height

/-- A declared side has room unless there are neither pixels nor padding. -/
theorem Keeps.declared_iff {r : Style τ Int} (h : r.Keeps s) (hs : s.NothingNegative)
    (hside : (s.extent axis).IsConcrete) :
    (r.extent axis).IsConcrete ∧ 0 < paddedExtent axis r ↔
      ¬(s.IsBare axis ∧ (s.extent axis).pixels? = some 0) := by
  obtain ⟨n, hn⟩ := hside
  have hkept : r.extent axis = .pixel n := (h.extent ⟨n, hn⟩).trans hn
  have hnonneg : 0 ≤ n := (hs.extent axis).pixels (by rw [hn]; rfl)
  rw [h.paddedExtent_pos_iff hs hkept hnonneg, hkept, hn, Length.pixels?_pixel, Option.some.injEq]
  exact and_iff_right ⟨n, rfl⟩

theorem NothingNegative.naturalBox (h : s.NothingNegative) {box : Int × Int}
    (hb : s.naturalBox? = some box) (axis : Axis) : 0 ≤ axis.coordinate box := by
  obtain ⟨hw, hh⟩ := naturalBox?_eq_some.1 hb
  cases axis with
  | horizontal => exact h.naturalWidth _ hw
  | vertical => exact h.naturalHeight _ hh

/-- An open side of a leaf with a natural box is not negative, and there are no pixels if it is
blank or thin. -/
theorem NothingNegative.exists_extent_fitSource (h : s.NothingNegative) {box : Int × Int}
    (hb : s.naturalBox? = some box) (ho : s.extent axis = .auto) :
    ∃ n, s.fitSource.extent axis = .pixel n ∧ 0 ≤ n ∧ (n = 0 ↔ s.IsThin axis ∨ s.IsBlank axis) := by
  have hside := h.naturalBox hb axis
  have hcross := h.naturalBox hb axis.cross
  have hblank : s.IsBlank axis ↔ axis.coordinate box = 0 := by
    simp [IsBlank, hb]
  rw [extent_fitSource hb ho]
  cases hp : (s.extent axis.cross).pixels? with
  | none =>
      have hthin : ¬s.IsThin axis := by
        simp [IsThin, hb, hp]
      exact ⟨_, rfl, hside, by simp only [hblank, hthin, false_or]⟩
  | some n =>
      have hn : 0 ≤ n := (h.extent axis.cross).pixels hp
      have hthin : s.IsThin axis ↔ 2 * (n * axis.coordinate box) < axis.cross.coordinate box := by
        simp [IsThin, hb, hp]
      have hproduct : 0 ≤ n * axis.coordinate box := Int.mul_nonneg hn hside
      simp only
      split
      · next hpos =>
          refine ⟨_, rfl, nearestQuotient_nonneg hproduct hpos, ?_⟩
          rw [nearestQuotient_eq_zero_iff hproduct hpos, hthin, hblank]
          refine ⟨Or.inl, ?_⟩
          rintro (hthin | hzero)
          · exact hthin
          · rw [hzero]
            omega
      · refine ⟨_, rfl, hside, ?_⟩
        rw [hthin, hblank]
        omega

end Style

namespace Scene

/-- What is known about a part of a draft in which nothing is negative: the sides that are not open
are in pixels, and media that can be seen have a picture. -/
inductive IsDrafted : Scene τ Int → Prop
  | leaf {tag : Tag} {kind : MediaKind} {locator : Locator} {s : Style τ Int}
      (hn : s.NothingNegative) (hm : s.IsMeasured)
      (hb : kind.hasVideo = true → kind ≠ .text →
        ∃ box, s.naturalBox? = some box ∧ ∀ axis : Axis, 0 < axis.coordinate box) :
      IsDrafted (.leaf tag kind locator s)
  | container {tag : Tag} {s : Style τ Int} {items : List (Scene τ Int)} (hn : s.NothingNegative)
      (hm : s.IsMeasured) : IsDrafted (.container tag s items)

/-- A leaf has room if and only if it loses no side. -/
theorem hasRoom_leaf_iff {tag : Tag} {kind : MediaKind} {locator : Locator} {s : Style τ Int}
    (h : (leaf tag kind locator s).IsDrafted) (hv : kind.hasVideo = true) :
    s.fitSource.HasRoom ↔ ∀ axis, ¬(leaf tag kind locator s).LosesSide axis := by
  obtain ⟨hn, hm, hb⟩ := h
  have hkeeps := s.keeps_fitSource
  rw [hm.leaf.hasRoom_iff]
  refine forall_congr' fun axis => ?_
  rcases hm.extent axis with ho | hside
  · cases hbox : s.naturalBox? with
    | none =>
        have htext : kind = .text := by
          by_contra ht
          obtain ⟨box, hsome, -⟩ := hb hv ht
          exact absurd (hbox.symm.trans hsome) (by simp)
        have hself : s.fitSource = s :=
          Style.fitSource_eq_self (Style.naturalBox?_eq_none.1 hbox)
        simp [LosesSide, hself, ho, hbox, htext, Length.isAuto, Length.IsConcrete]
    | some box =>
        obtain ⟨n, hside, hpos, hzero⟩ := hn.exists_extent_fitSource hbox ho
        have hblank : kind = .text ∧ s.IsBlank axis ↔ s.IsBlank axis := by
          refine ⟨And.right, fun hblank => ⟨?_, hblank⟩⟩
          by_contra ht
          obtain ⟨_, hsome, hpicture⟩ := hb hv ht
          simp only [Style.IsBlank, hsome, Option.mem_some_iff, exists_eq_left'] at hblank
          exact absurd hblank (Int.ne_of_gt (hpicture axis))
        rw [hkeeps.paddedExtent_pos_iff hn hside hpos, hzero]
        simp [LosesSide, hside, ho, hbox, hblank, Length.isAuto, Length.pixels?, Length.IsConcrete]
  · rw [hkeeps.declared_iff hn hside]
    obtain ⟨n, hpixel⟩ := hside
    simp [LosesSide, hpixel, Length.isAuto]

end Scene

/-! ### Containers -/

/-- A child that has room makes any sum of children positive. -/
theorem catenateFrom_pos {axis : Axis} {reverse : Bool} {s : Style τ Int}
    {rest : List (Style τ Int)} (hs : 0 < paddedExtent axis s)
    (h : ∀ child ∈ s :: rest, child.IsNonnegative) :
    0 < catenateFrom axis reverse 0 0 (s :: rest) := by
  obtain ⟨hfirst, hrest⟩ := List.forall_mem_cons.1 h
  have htail := catenateFrom_nonneg axis reverse _ rest (hfirst.along_margin axis reverse).2 hrest
  simp only [catenateFrom]
  rw [catenateFrom_eq_add]
  omega

theorem Style.IsNonnegative.footprintExtent {s : Style τ Int} (h : s.IsNonnegative) (axis : Axis) :
    0 ≤ Montage.footprintExtent axis s := by
  have hmargin := h.along_margin axis false
  have hsize := h.paddedExtent axis
  simp only [Montage.footprintExtent]
  omega

theorem greatest_footprintExtent_pos {axis : Axis} {s : Style τ Int} {rest : List (Style τ Int)}
    (hs : 0 < paddedExtent axis s) (hn : s.IsNonnegative) :
    0 < greatest ((s :: rest).map (footprintExtent axis)) := by
  have hmargin := hn.along_margin axis false
  have hlarge : footprintExtent axis s ≤ greatest ((s :: rest).map (footprintExtent axis)) :=
    le_greatest List.mem_cons_self
  simp only [footprintExtent] at hlarge
  omega

theorem greatest_nonneg {ns : List Int} (h : ∀ n ∈ ns, 0 ≤ n) : 0 ≤ greatest ns := by
  cases ns with
  | nil => exact Int.le_refl 0
  | cons n ns => exact Int.le_trans (h n List.mem_cons_self) (le_greatest List.mem_cons_self)

variable [Timescale τ]

namespace Style

variable {s : Style τ Int} {children visible : List (Style τ Int)}

omit [Timescale τ] in
/-- What is kept of a style in which nothing is negative is not negative, so only open sides are to be
looked at. -/
theorem NothingNegative.isNonnegative_of_keeps {r : Style τ Int} (h : s.NothingNegative)
    (hm : s.IsMeasured) (hk : r.Keeps s)
    (ho : ∀ axis, s.extent axis = .auto → 0 ≤ (r.extent axis).pixelsOr 0) : r.IsNonnegative := by
  have hside : ∀ axis, 0 ≤ (r.extent axis).pixelsOr 0 := by
    intro axis
    rcases hm.extent axis with hopen | hdeclared
    · exact ho axis hopen
    · rw [hk.extent hdeclared]
      exact (h.extent axis).pixelsOr
  refine ⟨fun l hl => (h.margin l (hk.margin ▸ hl)).pixelsOr,
    fun l hl => (h.padding l (hk.padding ▸ hl)).pixelsOr, ?_⟩
  exact List.forall_mem_cons.2
    ⟨hside .horizontal, List.forall_mem_singleton.2 (hside .vertical)⟩

omit [Timescale τ] in
/-- A leaf in whose draft nothing is negative is not negative. -/
theorem NothingNegative.isNonnegative_fitSource (h : s.NothingNegative) (hm : s.IsMeasured) :
    s.fitSource.IsNonnegative := by
  refine h.isNonnegative_of_keeps hm s.keeps_fitSource fun axis ho => ?_
  cases hbox : s.naturalBox? with
  | none =>
      rw [fitSource_eq_self (naturalBox?_eq_none.1 hbox)]
      exact (h.extent axis).pixelsOr
  | some box =>
      obtain ⟨n, hn, hpos, -⟩ := h.exists_extent_fitSource hbox ho
      rw [hn]
      exact hpos

/-- A container that is settled over children that are not negative is not negative. -/
theorem NothingNegative.isNonnegative_settle (h : s.NothingNegative) (hm : s.IsMeasured)
    (hv : ∀ child ∈ visible, child.IsNonnegative) : (s.settle children visible).IsNonnegative := by
  refine h.isNonnegative_of_keeps hm (s.keeps_settle children visible) fun axis ho => ?_
  by_cases hne : visible = []
  · subst hne
    rw [extent_settle_nil]
    exact (h.extent axis).pixelsOr
  · rw [extent_settle ho children hne]
    split
    · exact catenateFrom_nonneg _ _ _ _ (Int.le_refl 0) hv
    · refine greatest_nonneg (List.forall_mem_map.2 fun child hc => ?_)
      exact (hv child hc).footprintExtent axis

/-- An open side of a container is positive if its children have room. -/
theorem exists_extent_settle {axis : Axis} (ho : s.extent axis = .auto) (hne : visible ≠ [])
    (hv : ∀ child ∈ visible, child.IsNonnegative)
    (hroom : ∀ child ∈ visible, 0 < paddedExtent axis child) :
    ∃ n, (s.settle children visible).extent axis = .pixel n ∧ 0 < n := by
  obtain ⟨first, rest, rfl⟩ := List.exists_cons_of_ne_nil hne
  have hfirst := hroom first List.mem_cons_self
  rw [extent_settle ho children hne]
  split
  · exact ⟨_, rfl, catenateFrom_pos hfirst hv⟩
  · exact ⟨_, rfl, greatest_footprintExtent_pos hfirst (hv first List.mem_cons_self)⟩

/-- A container that can be seen and loses no side has room if its children have. -/
theorem NothingNegative.hasRoom_settle (h : s.NothingNegative) (hm : s.IsMeasured)
    (hne : visible ≠ []) (hv : ∀ child ∈ visible, child.IsNonnegative)
    (hroom : ∀ child ∈ visible, ∀ axis, 0 < paddedExtent axis child)
    (hl : ∀ axis, ¬(s.IsBare axis ∧ (s.extent axis).pixels? = some 0)) :
    (s.settle children visible).HasRoom := by
  have hkeeps := s.keeps_settle children visible
  rw [(hm.container children visible).hasRoom_iff]
  intro axis
  rcases hm.extent axis with ho | hside
  · obtain ⟨n, hn, hpos⟩ := exists_extent_settle ho hne hv fun child hc => hroom child hc axis
    exact ⟨⟨n, hn⟩, (hkeeps.paddedExtent_pos_iff h hn (Int.le_of_lt hpos)).2 (by omega)⟩
  · exact (hkeeps.declared_iff h hside).2 (hl axis)

end Style

/-! ### Drafts -/

namespace Scene

omit [Timescale τ] in
theorem IsDrafted.nonneg {part : Scene τ Int} (h : part.IsDrafted) :
    part.style.NothingNegative := by
  cases h with
  | leaf hn _ _ => exact hn
  | container hn _ => exact hn

omit [Timescale τ] in
theorem IsDrafted.measured {part : Scene τ Int} (h : part.IsDrafted) : part.style.IsMeasured := by
  cases h with
  | leaf _ hm _ => exact hm
  | container _ hm => exact hm

omit [Timescale τ] in
theorem mem_visibleStyles {items : List (Scene τ π)} {child : Style τ π}
    (h : child ∈ visibleStyles items) :
    ∃ item ∈ items, item.hasVideo = true ∧ item.style = child := by
  obtain ⟨item, hi, rfl⟩ := List.mem_map.1 h
  obtain ⟨hmem, hshown⟩ := List.mem_filter.1 hi
  exact ⟨item, hmem, hshown, rfl⟩

mutual

/-- What is filled in is not negative. -/
theorem isNonnegative_finish : ∀ {draft : Scene τ Int},
    (∀ part : Scene τ Int, part.Within draft → part.IsDrafted) → draft.finish.style.IsNonnegative
  | leaf tag kind locator s, h => by
      have hleaf := forall_within_leaf.1 h
      exact hleaf.nonneg.isNonnegative_fitSource hleaf.measured
  | container tag s items, h => by
      obtain ⟨hself, hitems⟩ := forall_within_container.1 h
      refine hself.nonneg.isNonnegative_settle hself.measured fun child hc => ?_
      obtain ⟨item, hi, -, rfl⟩ := mem_visibleStyles hc
      exact isNonnegative_finishAll hitems item hi

theorem isNonnegative_finishAll : ∀ {drafts : List (Scene τ Int)},
    (∀ draft ∈ drafts, ∀ part : Scene τ Int, part.Within draft → part.IsDrafted) →
      ∀ item ∈ finishAll drafts, item.style.IsNonnegative
  | [], _ => by simp [finishAll]
  | draft :: rest, h => by
      obtain ⟨hdraft, hrest⟩ := List.forall_mem_cons.1 h
      rw [finishAll, List.forall_mem_cons]
      exact ⟨isNonnegative_finish hdraft, isNonnegative_finishAll hrest⟩

end

/-- No part of a draft that can be seen loses a side. -/
def LosesNothing (draft : Scene τ Int) : Prop :=
  ∀ part : Scene τ Int, part.Within draft → part.hasVideo = true → ∀ axis, ¬part.LosesSide axis

instance (draft : Scene τ Int) : Decidable draft.LosesNothing :=
  decidable_of_iff (∀ part : Scene τ Int, part.Within draft → part.hasVideo = true →
      ¬part.LosesSide .horizontal ∧ ¬part.LosesSide .vertical)
    (by simp only [LosesNothing, Axis.forall_iff])

mutual

/-- A draft that loses nothing has room once it is filled in. -/
theorem hasRoom_finish : ∀ {draft : Scene τ Int},
    (∀ part : Scene τ Int, part.Within draft → part.IsDrafted) → draft.LosesNothing →
      draft.hasVideo = true → draft.finish.style.HasRoom
  | leaf tag kind locator s, h, hl, hv =>
      (hasRoom_leaf_iff (h _ (.self _)) hv).2 (hl _ (.self _) hv)
  | container tag s items, h, hl, hv => by
      obtain ⟨hself, hitems⟩ := forall_within_container.1 h
      obtain ⟨hsides, hparts⟩ := forall_within_container.1 hl
      have hvisible : anyVideo (finishAll items) = true := by
        rw [anyVideo_finishAll]
        exact hv
      have hne := visibleStyles_ne_nil hvisible
      refine hself.nonneg.hasRoom_settle hself.measured hne ?_ ?_ (hsides hv)
      · intro child hc
        obtain ⟨item, hi, -, rfl⟩ := mem_visibleStyles hc
        exact isNonnegative_finishAll hitems item hi
      · intro child hc
        obtain ⟨item, hi, hshown, rfl⟩ := mem_visibleStyles hc
        obtain ⟨hmeasured, hroom⟩ := hasRoom_finishAll hitems hparts item hi hshown
        exact fun axis => (hmeasured.hasRoom_iff.1 hroom axis).2

theorem hasRoom_finishAll : ∀ {drafts : List (Scene τ Int)},
    (∀ draft ∈ drafts, ∀ part : Scene τ Int, part.Within draft → part.IsDrafted) →
      (∀ draft ∈ drafts, draft.LosesNothing) →
      ∀ item ∈ finishAll drafts, item.hasVideo = true →
        item.style.IsMeasured ∧ item.style.HasRoom
  | [], _, _ => by simp [finishAll]
  | draft :: rest, h, hl => by
      obtain ⟨hdraft, hrest⟩ := List.forall_mem_cons.1 h
      obtain ⟨hfirst, hlater⟩ := List.forall_mem_cons.1 hl
      rw [finishAll, List.forall_mem_cons]
      refine ⟨fun hv => ?_, hasRoom_finishAll hrest hlater⟩
      rw [hasVideo_finish] at hv
      exact ⟨isMeasured_finish (hdraft _ (.self _)).measured, hasRoom_finish hdraft hfirst hv⟩

end

/-- All that can be seen has room if and only if the draft loses nothing. -/
theorem hasRoom_finish_iff {draft : Scene τ Int}
    (h : ∀ part : Scene τ Int, part.Within draft → part.IsDrafted) :
    (∀ node : Scene τ Int, node.Within draft.finish → node.hasVideo = true → node.style.HasRoom) ↔
      draft.LosesNothing := by
  constructor
  · intro hroom part hpart hv
    have hpart' := h part hpart
    have hfinished := hroom _ (within_finish hpart) ((hasVideo_finish part).trans hv)
    cases part with
    | leaf => exact (hasRoom_leaf_iff hpart' hv).1 hfinished
    | container tag s items =>
        intro axis
        have haxis := ((isMeasured_finish hpart'.measured).hasRoom_iff.1 hfinished) axis
        rcases hpart'.measured.extent axis with ho | hside
        · rintro ⟨-, hzero⟩
          rw [style] at ho
          rw [ho] at hzero
          cases hzero
        · exact ((keeps_finish _).declared_iff hpart'.nonneg hside).1 haxis
  · intro hl node hnode hv
    obtain ⟨part, hpart, rfl⟩ := exists_of_within_finish hnode rfl
    rw [hasVideo_finish] at hv
    exact hasRoom_finish (fun p hp => h p (hp.trans hpart)) (fun p hp => hl p (hp.trans hpart)) hv

end Scene

/-! ### Documents -/

/-- A probe that finds no video without pixels. -/
def Probe.FindsPixels (probe : Probe τ) : Prop :=
  ∀ path info video, probe path = .ok info → info.video = some video →
    0 < video.width ∧ 0 < video.height

/-- A leaf of media keeps what it was told of them. -/
theorem Styling.source_styleOf [PixelCount π] (c : Styling τ) {node : Node} {kind : MediaKind}
    (hk : node.tag.kind? = some kind) (ht : kind ≠ .text) (ancestors : List Identity)
    (parent : Option (Style τ π)) (facts : SourceFacts τ π) :
    (c.styleOf node ancestors parent facts).source = facts := by
  rw [styleOf, Node.body?_eq_none hk ht, Style.source_resolve, Style.source_withAttributes,
    Style.source_declareAll]

/-- The natural box of media that can be seen has pixels. -/
theorem Styling.Tells.exists_naturalBox {c : Styling τ} (hc : c.probe.FindsPixels) {node : Node}
    {source : Option Path} {facts : SourceFacts τ Int} (h : c.Tells node source facts)
    {kind : MediaKind} (hk : node.tag.kind? = some kind) (hv : kind.hasVideo = true)
    (ht : kind ≠ .text) (ancestors : List Identity) (parent : Option (Style τ Int)) :
    ∃ box, (c.styleOf node ancestors parent facts).naturalBox? = some box ∧
      ∀ axis : Axis, 0 < axis.coordinate box := by
  have hsource := c.source_styleOf hk ht ancestors parent facts
  cases h with
  | unknown hunknown =>
      rcases hunknown with hnone | htext
      · exact absurd (hnone.symm.trans hk) (by simp)
      · exact absurd (Option.some.inj (hk.symm.trans htext)) ht
  | @media kind' path p info _ hk' _ _ _ hi hf =>
      obtain rfl : kind = kind' := Option.some.inj (hk.symm.trans hk')
      obtain ⟨hm, hfacts⟩ := MediaInfo.facts_eq_ok hf
      obtain ⟨video, hvideo⟩ := Option.isSome_iff_exists.1 (MediaInfo.isSome_video hm hv ht)
      obtain ⟨hwidth, hheight⟩ := hc p info video hi hvideo
      refine ⟨((video.width : Int), (video.height : Int)), ?_, ?_⟩
      · rw [Style.naturalBox?_eq_some, hsource, hfacts, hvideo]
        exact ⟨rfl, rfl⟩
      · intro axis
        cases axis with
        | horizontal => exact Int.ofNat_lt.2 hwidth
        | vertical => exact Int.ofNat_lt.2 hheight

/-- What is known about every part of the draft of a document that declares nothing negative. -/
theorem Document.isDrafted_draft {d : Document τ} {probe : Probe τ} {draft : Scene τ Int}
    (h : d.draft probe = .ok draft) (hn : d.DeclaresNothingNegative) (hp : probe.FindsPixels) :
    ∀ part : Scene τ Int, part.Within draft → part.IsDrafted := by
  intro part hpart
  have hinv : (d.styling probe).Upholds d.baseDir d.root fun s : Style τ Int => s.NothingNegative :=
    upholds_nothingNegative hn
  cases isStyled_draft h hinv part hpart with
  | leaf hnode hparent htells hk =>
      refine .leaf (hinv _ hnode _ _ _ hparent htells) (Style.isMeasured_resolve _ _ _ _) ?_
      exact fun hv ht => htells.exists_naturalBox hp hk hv ht _ _
  | container hnode hparent hk =>
      refine .container (hinv _ hnode _ _ _ hparent (.unknown (Or.inl hk))) ?_
      exact Style.isMeasured_resolve _ _ _ _

end Montage
