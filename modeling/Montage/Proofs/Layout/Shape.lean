import Montage.Proofs.Layout.Room
import Montage.Proofs.Scene.Recount

/-!
# The shape of media

An open side of a leaf is filled in with the shape of its media, to the nearest pixel.

**Input.** A style whose sides are open or in pixels, and a natural box with positive sides.

**Algorithm.** The declared side is multiplied by the natural side and divided by the other one, half
of which is added first. The quotient is nearest; it is found as long as a word holds what is divided,
and otherwise the program stops there.

**Results.** `Style.fitSource_shapes`: which sides a leaf has, that an open side is in the shape of its
media, when the program stops, and that filling in a second time changes nothing.
-/

namespace Montage

variable {τ π : Type}

theorem Axis.forall_iff_cross {P : Axis → Prop} (axis : Axis) :
    (∀ axis', P axis') ↔ P axis ∧ P axis.cross := by
  cases axis
  · exact forall_iff
  · exact forall_iff.trans and_comm

/-! ### Quotients to the nearest -/

namespace Style

/-- A quotient of whole numbers is as near as any. -/
theorem two_mul_abs_sub_le {num den : Int} (hn : 0 ≤ num) (hd : 0 < den) :
    2 * |nearestQuotient num den * den - num| ≤ den := by
  have hhalf : Int.tdiv den 2 = den / 2 := Int.tdiv_eq_ediv_of_nonneg hd.le
  have hquotient : nearestQuotient num den = (num + den / 2) / den := by
    change Int.tdiv (num + Int.tdiv den 2) den = _
    rw [hhalf, Int.tdiv_eq_ediv_of_nonneg (by omega)]
  have hdivides := Int.ediv_mul_add_emod (num + den / 2) den
  have hrest := Int.emod_nonneg (num + den / 2) hd.ne'
  have hrest' := Int.emod_lt_of_pos (num + den / 2) hd
  have habs : |nearestQuotient num den * den - num| ≤ den / 2 := by
    rw [hquotient, abs_le]
    omega
  omega

/-- On words, the number is that of whole numbers. -/
theorem value_nearestQuotient (num : Word) {den : Word} (hd : 0 < den) :
    (nearestQuotient num den).value = nearestQuotient num.value den.value :=
  (nearestQuotient_recount Word.passage.toPassage hd num).symm

/-- A quotient to the nearest is found if and only if a word holds what is divided. -/
theorem isFound_nearestQuotient {a b den : Word} (ha : PixelCount.IsFound a)
    (hb : PixelCount.IsFound b) (hd : PixelCount.IsFound den) (hpos : 0 < den)
    (hn : 0 ≤ a.value * b.value) :
    PixelCount.IsFound (nearestQuotient (a * b) den) ↔
      FitsWord (a.value * b.value + den.value / 2) := by
  have hden : 0 < den.value := hpos
  have htwo : PixelCount.IsFound (PixelCount.ofInt 2 : Word) := Word.isFound_ofInt.2 (by decide)
  have hhalf : (PixelCount.quotient den (PixelCount.ofInt 2)).value = den.value / 2 := by
    rw [Word.value_quotient, Word.value_ofInt, Int.tdiv_eq_ediv_of_nonneg hden.le]
  have hfound : PixelCount.IsFound (PixelCount.quotient den (PixelCount.ofInt 2)) :=
    (Word.isFound_quotient Word.passage.two_pos).2 ⟨hd, htwo⟩
  rw [nearestQuotient, Word.isFound_quotient hpos, Word.isFound_add, Word.isFound_mul, hhalf,
    Word.value_mul]
  constructor
  · exact fun h => h.1.2
  · intro hfits
    have hproduct : FitsWord (a.value * b.value) := FitsWord.of_le hn (by omega) hfits
    exact ⟨⟨⟨⟨⟨ha, hb⟩, hproduct⟩, hfound⟩, hfits⟩, hd⟩

/-! ### Leaves -/

variable {s : Style τ π} {box : π × π}

/-- Two styles with the same sides that agree in the rest are the same. -/
theorem eq_of_extent {s r : Style τ π} (he : ∀ axis, r.extent axis = s.extent axis)
    (hr : ∃ width height, r = { s with width := width, height := height }) : r = s := by
  obtain ⟨width, height, rfl⟩ := hr
  obtain rfl : width = s.width := he .horizontal
  obtain rfl : height = s.height := he .vertical
  rfl

section

variable [PixelCount π]

/-- A side that is declared stays as it is. -/
theorem extent_fitSource_of_isConcrete {axis : Axis} (h : (s.extent axis).IsConcrete) :
    s.fitSource.extent axis = s.extent axis :=
  s.keeps_fitSource.extent h

/-- What has both sides stays as it is. -/
theorem fitSource_of_isConcrete (h : ∀ axis, (s.extent axis).IsConcrete) : s.fitSource = s :=
  eq_of_extent (fun axis => extent_fitSource_of_isConcrete (h axis)) s.fitSource_eq

/-- With a natural box, a leaf has both sides. -/
theorem isConcrete_extent_fitSource (hb : s.naturalBox? = some box) {axis : Axis}
    (hs : s.extent axis = .auto ∨ (s.extent axis).IsConcrete) :
    (s.fitSource.extent axis).IsConcrete := by
  rcases hs with ho | hc
  · exact ⟨_, extent_fitSource hb ho⟩
  · rw [extent_fitSource_of_isConcrete hc]
    exact hc

/-- A leaf changes in the sides that are open. -/
theorem fitSource_eq_setExtent {axis : Axis} (hc : (s.extent axis.cross).IsConcrete) :
    s.fitSource = s.setExtent axis (s.fitSource.extent axis) := by
  have hcross := extent_fitSource_of_isConcrete hc
  obtain ⟨width, height, heq⟩ := s.fitSource_eq
  rw [heq] at hcross ⊢
  cases axis with
  | horizontal =>
      change height = s.height at hcross
      subst hcross
      rfl
  | vertical =>
      change width = s.width at hcross
      subst hcross
      rfl

end

/-- An open side beside a declared one is in the shape of the media. -/
theorem extent_fitSource_of_pixel [PixelCount π] (hb : s.naturalBox? = some box)
    (hpos : ∀ axis : Axis, 0 < axis.coordinate box) {axis : Axis} {n : π}
    (ho : s.extent axis = .auto) (hn : s.extent axis.cross = .pixel n) :
    s.fitSource.extent axis =
      .pixel (nearestQuotient (n * axis.coordinate box) (axis.cross.coordinate box)) := by
  rw [extent_fitSource hb ho, hn]
  exact congrArg Length.pixel (if_pos (hpos axis.cross))

end Style

/-- What is divided to get an open side beside a declared one, as a whole number: the declared side in
the shape of the media, and half of the divisor. -/
def Axis.dividend (axis : Axis) (box : Word × Word) (n : Word) : Int :=
  n.value * (axis.coordinate box).value + (axis.cross.coordinate box).value / 2

namespace Style

section

variable {s : Style τ Word} {box : Word × Word}

/-- The sides of the natural box of a style that is found are found. -/
theorem isFound_natural (h : s.mishap? = none) (hb : s.naturalBox? = some box) (axis : Axis) :
    PixelCount.IsFound (axis.coordinate box) := by
  obtain ⟨hw, hh⟩ := naturalBox?_eq_some.1 hb
  cases axis with
  | horizontal => exact isFound_of_mem h (n := box.1) (by simp [counts, hw])
  | vertical => exact isFound_of_mem h (n := box.2) (by simp [counts, hh])

theorem isFound_extent (h : s.mishap? = none) {axis : Axis} {n : Word}
    (hn : s.extent axis = .pixel n) : PixelCount.IsFound n := by
  cases axis with
  | horizontal =>
      exact isFound_side h (l := s.width) (by simp) (Length.pixels?_eq_some.2 hn)
  | vertical =>
      exact isFound_side h (l := s.height) (by simp) (Length.pixels?_eq_some.2 hn)

/-- With other sides, a style that is found is found if and only if they are. -/
theorem mishap?_of_sides (h : s.mishap? = none) {r : Style τ Word}
    (hr : ∃ width height, r = { s with width := width, height := height }) :
    r.mishap? = none ↔ ∀ axis n, r.extent axis = .pixel n → PixelCount.IsFound n := by
  refine ⟨fun hfound axis n => isFound_extent hfound, fun hsides => ?_⟩
  obtain ⟨width, height, rfl⟩ := hr
  refine PixelCount.firstMishap?_eq_none.2 fun n hn => ?_
  have hmem : n ∈ s.counts ∨ width.pixels? = some n ∨ height.pixels? = some n := by
    simp only [counts, List.mem_append, List.mem_filterMap, List.mem_cons, List.not_mem_nil,
      or_false, or_and_right, exists_or, exists_eq_left] at hn ⊢
    grind
  rcases hmem with hn | hn | hn
  · exact isFound_of_mem h hn
  · exact hsides .horizontal n (Length.pixels?_eq_some.1 hn)
  · exact hsides .vertical n (Length.pixels?_eq_some.1 hn)

/-- An open side beside a declared one is nearest to the shape of the media. -/
theorem nearest (hpos : ∀ axis : Axis, 0 < axis.coordinate box) (axis : Axis) {n : Word}
    (hn : 0 ≤ n) :
    2 * |(nearestQuotient (n * axis.coordinate box) (axis.cross.coordinate box)).value *
          (axis.cross.coordinate box).value - n.value * (axis.coordinate box).value| ≤
        (axis.cross.coordinate box).value := by
  have hside : 0 < (axis.coordinate box).value := hpos axis
  have hdeclared : 0 ≤ n.value := hn
  rw [value_nearestQuotient _ (hpos axis.cross)]
  exact two_mul_abs_sub_le (Int.mul_nonneg hdeclared hside.le) (hpos axis.cross)

/-- An open side beside a declared one is found if and only if a word holds what is divided. -/
theorem isFound_nearest (h : s.mishap? = none) (hb : s.naturalBox? = some box)
    (hpos : ∀ axis : Axis, 0 < axis.coordinate box) {axis : Axis} {n : Word}
    (hn : PixelCount.IsFound n) (h0 : 0 ≤ n) :
    PixelCount.IsFound
        (nearestQuotient (n * axis.coordinate box) (axis.cross.coordinate box)) ↔
      FitsWord (axis.dividend box n) := by
  have hside : 0 < (axis.coordinate box).value := hpos axis
  have hdeclared : 0 ≤ n.value := h0
  exact isFound_nearestQuotient hn (isFound_natural h hb axis) (isFound_natural h hb axis.cross)
    (hpos axis.cross) (Int.mul_nonneg hdeclared hside.le)

/-- Beside a natural side, the number of an open side is the natural one. -/
theorem value_nearest_natural (hpos : ∀ axis : Axis, 0 < axis.coordinate box) (axis : Axis) :
    (nearestQuotient (axis.cross.coordinate box * axis.coordinate box)
      (axis.cross.coordinate box)).value = (axis.coordinate box).value := by
  have hcross : 0 < (axis.cross.coordinate box).value := hpos axis.cross
  have hnear := nearest hpos axis (Int.le_of_lt hcross)
  rw [Int.mul_comm (axis.cross.coordinate box).value, ← Int.sub_mul, abs_mul,
    abs_of_pos hcross] at hnear
  by_contra hne
  have hone := Int.one_le_abs (sub_ne_zero.2 hne)
  have hle := Int.mul_le_mul_of_nonneg_right hone hcross.le
  omega

end

/-- Where no side but a natural one is declared, a leaf has the numbers of its natural box. -/
theorem value_extent_fitSource {s : Style τ Word} {box : Word × Word}
    (hb : s.naturalBox? = some box) (hpos : ∀ axis : Axis, 0 < axis.coordinate box)
    (hnat : ∀ axis, s.extent axis = .auto ∨ s.extent axis = .pixel (axis.coordinate box))
    {axis : Axis} {n : Word} (hn : s.fitSource.extent axis = .pixel n) :
    n.value = (axis.coordinate box).value := by
  rcases hnat axis with ho | hd
  · rcases hnat axis.cross with ho' | hd'
    · rw [extent_fitSource hb ho, ho'] at hn
      cases hn
      rfl
    · rw [extent_fitSource_of_pixel hb hpos ho hd'] at hn
      cases hn
      exact value_nearest_natural hpos axis
  · rw [extent_fitSource_of_isConcrete ⟨_, hd⟩, hd] at hn
    cases hn
    rfl

/-- A leaf whose sides are those of its natural box is not resized. -/
theorem needsResize_eq_false_iff {s : Style τ π} [PixelCount π] {box : π × π}
    (hb : s.naturalBox? = some box) (hc : ∀ axis, (s.extent axis).IsConcrete) :
    s.needsResize = false ↔ ∀ axis : Axis, s.extent axis = .pixel (axis.coordinate box) := by
  obtain ⟨hw, hh⟩ := naturalBox?_eq_some.1 hb
  obtain ⟨w, hwidth⟩ : s.width.IsConcrete := hc .horizontal
  obtain ⟨h, hheight⟩ : s.height.IsConcrete := hc .vertical
  rw [Axis.forall_iff, needsResize, hw, hh]
  simp only [extent, Axis.coordinate, hwidth, hheight, sideDiffers, Length.pixels?_pixel,
    Option.some.injEq, ne_eq, Bool.or_eq_false_iff, decide_eq_false_iff_not, not_not,
    Length.pixel.injEq]
  exact and_congr eq_comm eq_comm

section

variable {s : Style τ Word} {box : Word × Word}

/-- How a leaf is filled in whose natural box is known. A declared side beside an open one gives the
open one the shape of the media, to the nearest pixel, and the program stops there if and only if no
word holds what is divided; two open sides become natural, and two declared sides stay. Nothing but the
sides changes, and nothing changes a second time. Where no side but a natural one is declared, the
program goes on if and only if the box becomes the natural one, and if and only if the leaf is not
resized. -/
theorem fitSource_shapes (hfound : s.mishap? = none) (hb : s.naturalBox? = some box)
    (hpos : ∀ axis : Axis, 0 < axis.coordinate box)
    (hs : ∀ axis, s.extent axis = .auto ∨ (s.extent axis).IsConcrete) :
    (∀ axis n, s.extent axis = .auto → s.extent axis.cross = .pixel n → 0 ≤ n →
      ∃ m : Word, s.fitSource = s.setExtent axis (.pixel m) ∧
        2 * |m.value * (axis.cross.coordinate box).value -
            n.value * (axis.coordinate box).value| ≤ (axis.cross.coordinate box).value ∧
        (s.fitSource.mishap? = none ↔ FitsWord (axis.dividend box n))) ∧
    ((∀ axis, s.extent axis = .auto) →
      s.fitSource = { s with width := .pixel box.1, height := .pixel box.2 } ∧
        s.fitSource.mishap? = none) ∧
    ((∀ axis, (s.extent axis).IsConcrete) → s.fitSource = s) ∧
    (∃ width height, s.fitSource = { s with width := width, height := height }) ∧
    s.fitSource.fitSource = s.fitSource ∧
    ((∀ axis, s.extent axis = .auto ∨ s.extent axis = .pixel (axis.coordinate box)) →
      (s.fitSource.mishap? = none ↔
        ∀ axis, s.fitSource.extent axis = .pixel (axis.coordinate box)) ∧
      (s.fitSource.mishap? = none ↔ s.fitSource.needsResize = false)) := by
  have hsized : ∀ axis, (s.fitSource.extent axis).IsConcrete := fun axis =>
    isConcrete_extent_fitSource hb (hs axis)
  have hsides := mishap?_of_sides hfound s.fitSource_eq
  have hnatural := isFound_natural hfound hb
  refine ⟨fun axis n ho hn h0 => ?_, fun ho => ?_, fitSource_of_isConcrete, s.fitSource_eq,
    fitSource_of_isConcrete hsized, fun hnat => ?_⟩
  · have hopen := extent_fitSource_of_pixel hb hpos ho hn
    refine ⟨_, ?_, nearest hpos axis h0, ?_⟩
    · rw [fitSource_eq_setExtent ⟨n, hn⟩, hopen]
    · have hcross : s.fitSource.extent axis.cross = .pixel n := by
        rw [extent_fitSource_of_isConcrete ⟨n, hn⟩, hn]
      rw [hsides, ← isFound_nearest hfound hb hpos (isFound_extent hfound hn) h0]
      rw [axis.forall_iff_cross, hopen, hcross]
      constructor
      · exact fun h => h.1 _ rfl
      · intro hm
        constructor
        · rintro _ ⟨⟩
          exact hm
        · rintro _ ⟨⟩
          exact isFound_extent hfound hn
  · have hopen : ∀ axis, s.fitSource.extent axis = .pixel (axis.coordinate box) := by
      intro axis
      rw [extent_fitSource hb (ho axis), ho axis.cross]
      rfl
    refine ⟨eq_of_extent (Axis.forall_iff.2 ⟨hopen .horizontal, hopen .vertical⟩) ?_, ?_⟩
    · obtain ⟨width, height, heq⟩ := s.fitSource_eq
      exact ⟨width, height, heq⟩
    · refine hsides.2 fun axis n hn => ?_
      cases (hopen axis).symm.trans hn
      exact hnatural axis
  · have hiff : s.fitSource.mishap? = none ↔
        ∀ axis, s.fitSource.extent axis = .pixel (axis.coordinate box) := by
      rw [hsides]
      constructor
      · intro h axis
        obtain ⟨n, hn⟩ := hsized axis
        have hvalue := value_extent_fitSource hb hpos hnat hn
        rw [hn, Word.eq_of_isFound (h axis n hn) (hnatural axis) hvalue]
      · intro h axis n hn
        cases (h axis).symm.trans hn
        exact hnatural axis
    have hbox : s.fitSource.naturalBox? = some box := by
      rw [naturalBox?, s.source_fitSource]
      exact hb
    exact ⟨hiff, hiff.trans (needsResize_eq_false_iff hbox hsized).symm⟩

end

end Style

/-- A leaf of a width, with media of a size. -/
def leafOfWidth (width : Int) (box : Int × Int) : Style Rat Word :=
  { Style.initial with
    width := .pixel (PixelCount.ofInt width)
    source := { (SourceFacts.unknown : SourceFacts Rat Word) with
      width := some (PixelCount.ofInt box.1), height := some (PixelCount.ofInt box.2) } }

/-- Two thirds of five pixels are three, and these stay. -/
theorem Style.fitSource_shapes_thirds :
    (∃ m, (leafOfWidth 5 (3, 2)).fitSource = (leafOfWidth 5 (3, 2)).setExtent .vertical (.pixel m) ∧
      2 * |m.value * 3 - 5 * 2| ≤ 3) ∧ (leafOfWidth 5 (3, 2)).fitSource.mishap? = none ∧
      (leafOfWidth 5 (3, 2)).fitSource.fitSource = (leafOfWidth 5 (3, 2)).fitSource := by
  have hpos : ∀ axis : Axis,
      0 < axis.coordinate ((PixelCount.ofInt 3, PixelCount.ofInt 2) : Word × Word) :=
    Axis.forall_iff.2 (by decide)
  have hs : ∀ axis, (leafOfWidth 5 (3, 2)).extent axis = .auto ∨
      ((leafOfWidth 5 (3, 2)).extent axis).IsConcrete :=
    Axis.forall_iff.2 ⟨Or.inr ⟨_, rfl⟩, Or.inl rfl⟩
  obtain ⟨hnear, -, -, -, htwice, -⟩ := fitSource_shapes (by decide) rfl hpos hs
  obtain ⟨m, hfit, hm, hiff⟩ := hnear .vertical (PixelCount.ofInt 5) rfl rfl (by decide)
  exact ⟨⟨m, hfit, hm⟩, hiff.2 (by decide), htwice⟩

/-- For a width of nine quadrillion pixels the program stops where it multiplies, though a word holds
the height in the shape of the media. -/
theorem Style.shape_lost :
    (leafOfWidth 9000000000000000 (1920, 1080)).mishap? = none ∧
      (leafOfWidth 9000000000000000 (1920, 1080)).fitSource.mishap? =
        some (.mul 9000000000000000 1080) ∧
      FitsWord 5062500000000000 ∧
      2 * |(5062500000000000 * 1920 - 9000000000000000 * 1080 : Int)| ≤ 1920 :=
  ⟨by decide, by decide, by decide, by decide⟩

end Montage
