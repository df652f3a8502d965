import Mathlib.Algebra.Ring.Int.Defs
import Montage.Proofs.Layout.Mirror
import Montage.Proofs.Layout.Room
import Montage.Proofs.Scene.Recount

/-!
# Side by side and on top of each other

Children never take less room side by side than on top of each other.

**Input.** The children of a container. Those that can be seen have sides, margins and paddings that
are not negative.

**Algorithm.** Of two margins that meet the greater counts, so each child has room for both of its
margins, and no margin counts more often than it is declared. Nothing that is summed up on the way is
more than the sum, so a program with words stops on the way only if no word holds the sum.

**Results.**
* `catenateFrom_between`: what is summed up lies between each footprint and the sum of all.
* `visibleStyles_insert`: a child that is only heard takes no room.
* `isFound_catenateFrom`, `isFound_greatest_footprints`: when a program comes to what is summed up.
* `Scene.pile_le_catenate`: children on top of each other, side by side, and the sum of their
  footprints.
* `Scene.order_lost`: two pictures that no program with words sums up side by side.
-/

namespace Montage

open PixelCount

variable {τ π : Type}

/-! ### Whole numbers -/

/-- A footprint has both margins, in whichever order a flow meets them. -/
theorem footprintExtent_eq (axis : Axis) (reverse : Bool) (s : Style τ Int) :
    footprintExtent axis s =
      (s.margin.along axis reverse).1 + paddedExtent axis s + (s.margin.along axis reverse).2 := by
  cases reverse with
  | false => rfl
  | true =>
      have hswap : s.margin.along axis true = (s.margin.along axis false).swap :=
        s.margin.along_reverse axis false
      rw [hswap]
      simp only [footprintExtent, Prod.fst_swap, Prod.snd_swap]
      omega

section

variable {children : List (Style τ Int)} (axis : Axis) (reverse : Bool)

/-- What is summed up has room for the margin that is still to be met and for every child with both of
its margins, and it is never more than all of these together. -/
theorem catenateFrom_between (h : ∀ s ∈ children, s.IsNonnegative) (total : Int) {pending : Int}
    (hp : 0 ≤ pending) :
    total + pending ≤ catenateFrom axis reverse total pending children ∧
      (∀ s ∈ children,
        total + footprintExtent axis s ≤ catenateFrom axis reverse total pending children) ∧
      catenateFrom axis reverse total pending children ≤
        total + pending + (children.map (footprintExtent axis)).sum := by
  induction children generalizing total pending with
  | nil => simp [catenateFrom]
  | cons s rest ih =>
      obtain ⟨hs, hrest⟩ := List.forall_mem_cons.1 h
      obtain ⟨hlead, htrail⟩ := hs.along_margin axis reverse
      have hsize := hs.paddedExtent axis
      have hfootprint := footprintExtent_eq axis reverse s
      obtain ⟨hmargin, hlater, hsum⟩ := ih hrest
        (total + (max (s.margin.along axis reverse).1 pending + paddedExtent axis s)) htrail
      rw [catenateFrom_cons, List.map_cons, List.sum_cons]
      refine ⟨by omega, List.forall_mem_cons.2 ⟨by omega, fun c hc => ?_⟩, by omega⟩
      have := hlater c hc
      omega

theorem greatest_le {ns : List Int} {n : Int} (hn : 0 ≤ n) (h : ∀ m ∈ ns, m ≤ n) :
    greatest ns ≤ n := by
  cases ns with
  | nil => exact hn
  | cons k ks =>
      have hmax : (k :: ks).max? = some (greatest (k :: ks)) := rfl
      exact h _ (List.max?_mem hmax)

/-- On top of each other children take no more room than side by side, and side by side no more than
the sum of their footprints. -/
theorem greatest_le_catenateFrom (h : ∀ s ∈ children, s.IsNonnegative) :
    greatest (children.map (footprintExtent axis)) ≤ catenateFrom axis reverse 0 0 children ∧
      catenateFrom axis reverse 0 0 children ≤ (children.map (footprintExtent axis)).sum := by
  obtain ⟨hzero, hfits, hsum⟩ := catenateFrom_between axis reverse h 0 le_rfl
  refine ⟨greatest_le (by omega) (List.forall_mem_map.2 fun s hs => ?_), by omega⟩
  have := hfits s hs
  omega

end

/-! ### Words -/

/-- A word that is found and not negative. -/
structure Word.IsSize (a : Word) : Prop where
  found : IsFound a
  nonneg : 0 ≤ a.value

namespace Word.IsSize

variable {a b : Word} (ha : a.IsSize) (hb : b.IsSize)

theorem zero : (0 : Word).IsSize :=
  ⟨isFound_zero, le_rfl⟩

include ha hb

/-- A sum is found if a word holds it, or anything that is not less. -/
theorem add {n : Int} (hn : FitsWord n) (hle : a.value + b.value ≤ n) : (a + b).IsSize := by
  have hsum : 0 ≤ a.value + b.value := Int.add_nonneg ha.nonneg hb.nonneg
  exact ⟨isFound_add.2 ⟨⟨ha.found, hb.found⟩, FitsWord.of_le hsum hle hn⟩, hsum⟩

theorem max : (max a b).IsSize := by
  refine ⟨isFound_max.2 ⟨ha.found, hb.found⟩, ?_⟩
  rw [value_max]
  exact ha.nonneg.trans (le_max_left _ _)

end Word.IsSize

namespace Style

/-- The style with its words read as whole numbers. -/
abbrev exact (s : Style τ Word) : Style τ Int :=
  s.recount Word.value

theorem IsNonnegative.exact {s : Style τ Word} (h : s.IsNonnegative) : s.exact.IsNonnegative := by
  have hread : ∀ {ls : List (Length Word)}, (∀ l ∈ ls, 0 ≤ l.pixelsOr 0) →
      ∀ l ∈ ls.map (Length.recount Word.value), (0 : Int) ≤ l.pixelsOr 0 := by
    intro ls hls
    refine List.forall_mem_map.2 fun l hl => ?_
    rw [Length.pixelsOr_recount Word.passage.toPassage]
    exact hls l hl
  exact ⟨hread h.margin, hread h.padding, hread h.side⟩

/-- A style that is found, with no margin, padding or side that is negative. -/
structure IsSound (s : Style τ Word) : Prop where
  found : s.mishap? = none
  nonneg : s.IsNonnegative

namespace IsSound

variable {s : Style τ Word} (h : s.IsSound)
include h

theorem pixelsOr {l : Length Word}
    (hl : l ∈ [s.width, s.height] ++ s.margin.toList ++ s.padding.toList) :
    (l.pixelsOr 0).IsSize := by
  refine ⟨isFound_pixelsOr h.found Word.isFound_zero hl, ?_⟩
  simp only [List.mem_append] at hl
  rcases hl with (hl | hl) | hl
  · exact h.nonneg.side l hl
  · exact h.nonneg.margin l hl
  · exact h.nonneg.padding l hl

theorem margin (axis : Axis) (reverse : Bool) :
    (s.margin.along axis reverse).1.IsSize ∧ (s.margin.along axis reverse).2.IsSize := by
  cases axis <;> cases reverse <;>
    exact ⟨h.pixelsOr (by simp [Edges.toList]), h.pixelsOr (by simp [Edges.toList])⟩

theorem padding (axis : Axis) :
    (s.padding.along axis false).1.IsSize ∧ (s.padding.along axis false).2.IsSize := by
  cases axis <;> exact ⟨h.pixelsOr (by simp [Edges.toList]), h.pixelsOr (by simp [Edges.toList])⟩

/-- A size with paddings is found if a word holds it, or anything that is not less. -/
theorem paddedExtent (axis : Axis) {n : Int} (hn : FitsWord n)
    (hle : (Montage.paddedExtent axis s).value ≤ n) : (Montage.paddedExtent axis s).IsSize := by
  obtain ⟨hlead, htrail⟩ := h.padding axis
  have hside : ((s.extent axis).pixelsOr 0).IsSize := by
    cases axis <;> exact h.pixelsOr (by simp [extent])
  have hsum : (s.padding.along axis false).1.value + ((s.extent axis).pixelsOr 0).value +
      (s.padding.along axis false).2.value ≤ n := hle
  have hrest := htrail.nonneg
  exact (hlead.add hside hn (by omega)).add htrail hn hsum

/-- A size with paddings and margins is found if a word holds it, or anything that is not less. -/
theorem footprintExtent (axis : Axis) {n : Int} (hn : FitsWord n)
    (hle : (Montage.footprintExtent axis s).value ≤ n) :
    (Montage.footprintExtent axis s).IsSize := by
  obtain ⟨hlead, htrail⟩ := h.margin axis false
  have hsum : (s.margin.along axis false).1.value + (Montage.paddedExtent axis s).value +
      (s.margin.along axis false).2.value ≤ n := hle
  have hbefore := hlead.nonneg
  have hafter := htrail.nonneg
  have hsize := h.paddedExtent axis hn (by omega)
  exact (hlead.add hsize hn (by omega)).add htrail hn hsum

end IsSound
end Style

section

variable {children : List (Style τ Word)} (axis : Axis)

/-- What is summed up is found if and only if a word holds it. -/
theorem isFound_catenateFrom (reverse : Bool) (h : ∀ s ∈ children, s.IsSound) {total pending : Word}
    (ht : total.IsSize) (hp : pending.IsSize) :
    IsFound (catenateFrom axis reverse total pending children) ↔
      FitsWord (catenateFrom axis reverse total pending children).value := by
  refine ⟨Word.fits_of_isFound, fun hfits => ?_⟩
  induction children generalizing total pending with
  | nil => exact (ht.add hp hfits le_rfl).found
  | cons s rest ih =>
      obtain ⟨hs, hrest⟩ := List.forall_mem_cons.1 h
      obtain ⟨hlead, htrail⟩ := hs.margin axis reverse
      rw [catenateFrom_cons] at hfits ⊢
      -- what follows only adds to the sum, so a word holds all that is summed up so far
      have hlater : (total + (max (s.margin.along axis reverse).1 pending +
            paddedExtent axis s)).value + (s.margin.along axis reverse).2.value ≤ _ :=
        (catenateFrom_between axis reverse
          (List.forall_mem_map.2 fun c hc => (hrest c hc).nonneg.exact) _ htrail.nonneg).1
      rw [catenateFrom_recount Word.passage.toPassage] at hlater
      simp only [Word.value_add] at hlater
      have hmargin := hlead.max hp
      have hbefore := ht.nonneg
      have hbetween := hmargin.nonneg
      have hafter := htrail.nonneg
      have hsize := hs.paddedExtent axis hfits (by omega)
      have hinside := hsize.nonneg
      have hstep := hmargin.add hsize hfits (by omega)
      exact ih hrest (ht.add hstep hfits (by rw [Word.value_add]; omega)) htrail hfits

theorem isFound_foldl_max {ns : List Word} {n : Word} (hn : IsFound n) (h : ∀ m ∈ ns, IsFound m) :
    IsFound (ns.foldl max n) := by
  induction ns generalizing n with
  | nil => exact hn
  | cons m rest ih =>
      obtain ⟨hm, hrest⟩ := List.forall_mem_cons.1 h
      exact ih (Word.isFound_max.2 ⟨hn, hm⟩) hrest

theorem isFound_greatest {ns : List Word} (h : ∀ n ∈ ns, IsFound n) : IsFound (greatest ns) := by
  cases ns with
  | nil => exact Word.isFound_zero
  | cons n rest =>
      obtain ⟨hn, hrest⟩ := List.forall_mem_cons.1 h
      exact isFound_foldl_max hn hrest

/-- The greatest footprint is found if and only if a word holds it. -/
theorem isFound_greatest_footprints (h : ∀ s ∈ children, s.IsSound) :
    IsFound (greatest (children.map (footprintExtent axis))) ↔
      FitsWord (greatest (children.map (footprintExtent axis))).value := by
  refine ⟨Word.fits_of_isFound, fun hfits => isFound_greatest ?_⟩
  refine List.forall_mem_map.2 fun s hs => ((h s hs).footprintExtent axis hfits ?_).found
  rw [← greatest_recount Word.passage.toPassage]
  exact le_greatest (List.mem_map_of_mem (List.mem_map_of_mem hs))

end

namespace Scene

/-- A child that is only heard takes no room among children. -/
theorem visibleStyles_insert {heard : Scene τ π} (h : heard.hasVideo = false)
    (front back : List (Scene τ π)) :
    visibleStyles (front ++ heard :: back) = visibleStyles (front ++ back) := by
  simp [visibleStyles, h]

/-- Children on top of each other take no more room than side by side, in either direction, and side by
side no more than the sum of their footprints, in which no margins collapse. A program with words comes
to either size if and only if a word holds it, so where it comes to what stands side by side, it comes
to what is on top of each other. A child that is only heard changes nothing, wherever it comes in. -/
theorem pile_le_catenate {items : List (Scene τ Word)}
    (h : ∀ s ∈ visibleStyles items, s.IsSound) (axis : Axis) (reverse : Bool) :
    let exact := (visibleStyles items).map Style.exact
    ∃ stacked lined : Word,
      pile axis (visibleStyles items) = .pixel stacked ∧
      catenate axis reverse (visibleStyles items) = .pixel lined ∧
      (stacked ≤ lined ∧ lined.value ≤ (exact.map (footprintExtent axis)).sum) ∧
      (pile axis exact = .pixel stacked.value ∧ catenate axis reverse exact = .pixel lined.value) ∧
      (IsFound stacked ↔ FitsWord stacked.value) ∧ (IsFound lined ↔ FitsWord lined.value) ∧
      (IsFound lined → IsFound stacked) ∧
      ∀ heard : Scene τ Word, heard.hasVideo = false → ∀ front back, items = front ++ back →
        pile axis (visibleStyles (front ++ heard :: back)) = .pixel stacked ∧
          catenate axis reverse (visibleStyles (front ++ heard :: back)) = .pixel lined := by
  intro exact
  have hexact : ∀ s ∈ exact, s.IsNonnegative :=
    List.forall_mem_map.2 fun s hs => (h s hs).nonneg.exact
  have hpile := pile_recount Word.passage.toPassage axis (visibleStyles items)
  have hcatenate := catenate_recount Word.passage.toPassage axis reverse (visibleStyles items)
  obtain ⟨hle, hsum⟩ := greatest_le_catenateFrom axis reverse hexact
  have hm : 0 ≤ greatest (exact.map (footprintExtent axis)) :=
    greatest_nonneg (List.forall_mem_map.2 fun s hs => (hexact s hs).footprintExtent axis)
  rw [Length.pixel.inj hpile] at hle hm
  rw [Length.pixel.inj hcatenate] at hle hsum
  have hstacked := isFound_greatest_footprints axis h
  have hlined := isFound_catenateFrom axis reverse h .zero .zero
  refine ⟨_, _, rfl, rfl, ⟨hle, hsum⟩, ⟨hpile, hcatenate⟩, hstacked, hlined, ?_, ?_⟩
  · exact fun hfound => hstacked.2 (FitsWord.of_le hm hle (hlined.1 hfound))
  · rintro heard hheard front back rfl
    rw [visibleStyles_insert hheard]
    exact ⟨rfl, rfl⟩

/-- Two tiles, and a song between them. -/
def tilesWithSong : List (Scene Rat Word) :=
  [.leaf .img .image (.path ⟨"a.png"⟩) (tile 30 4 10),
    .leaf .aud .audio (.path ⟨"song.mp3"⟩) Style.initial,
    .leaf .img .image (.path ⟨"b.png"⟩) (tile 20 6 0)]

theorem pile_le_catenate_tiles :
    (∀ s ∈ visibleStyles tilesWithSong, s.IsSound) ∧ ∃ stacked lined : Word,
      pile .horizontal (visibleStyles tilesWithSong) = .pixel stacked ∧
        catenate .horizontal false (visibleStyles tilesWithSong) = .pixel lined ∧
        stacked ≤ lined ∧ lined.value ≤ 46 + 28 ∧ IsFound stacked ∧ IsFound lined ∧
        stacked.value = 46 ∧ lined.value = 68 := by
  have hsound : ∀ s ∈ visibleStyles tilesWithSong, s.IsSound := by
    refine List.forall_mem_map.2 fun item hitem => ?_
    fin_cases hitem <;> exact ⟨by decide, by decide⟩
  obtain ⟨stacked, lined, hstacked, hlined, ⟨hle, hsum⟩, ⟨hpile, hcatenate⟩, -, hiff, hboth, -⟩ :=
    pile_le_catenate hsound .horizontal false
  obtain hstacked' : (46 : Int) = stacked.value := Length.pixel.inj hpile
  obtain hlined' : (68 : Int) = lined.value := Length.pixel.inj hcatenate
  have hfound : IsFound lined := hiff.2 (by rw [← hlined']; decide)
  exact ⟨hsound, stacked, lined, hstacked, hlined, hle, hsum, hboth hfound, hfound,
    hstacked'.symm, hlined'.symm⟩

/-- Two pictures of which one is as wide as a word can tell. -/
def broad : List (Scene Rat Word) :=
  [9223372036854775807, 1].map fun width =>
    .leaf .img .image (.path ⟨"a.png"⟩)
      { Style.initial with width := .pixel (PixelCount.ofInt width) }

/-- Side by side, two pictures stop a program where it adds up their widths, though it comes to the
size that they have on top of each other. -/
theorem order_lost :
    (∀ s ∈ visibleStyles broad, s.mishap? = none ∧ s.IsNonnegative) ∧ ∃ stacked lined : Word,
      pile .horizontal (visibleStyles broad) = .pixel stacked ∧
        catenate .horizontal false (visibleStyles broad) = .pixel lined ∧
        stacked = PixelCount.ofInt 9223372036854775807 ∧ IsFound stacked ∧
        lined.mishap? = some (.add 9223372036854775807 1) :=
  ⟨by decide, _, _, rfl, rfl, by decide, by decide, by decide⟩

end Scene
end Montage
