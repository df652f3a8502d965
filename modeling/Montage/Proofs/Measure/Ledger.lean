import Montage.Proofs.Measure.Passage

/-!
# Ledgers

Whole numbers that keep account of the calculations on the way to them.

**Input.** Calculations with whole numbers.

**Algorithm.** A ledger is an exact number with every calculation that led to it, in the order in which
a program makes them; nothing stops there. A word is what is left of a ledger in a program that stops
at the first calculation that does not fit, and a whole number is a ledger without the account.

**Results.**
* `Ledger.passage_toWord`, `Ledger.passage_value`: ledgers pass to words and to whole numbers.
* `Ledger.isFound_toWord`: a word is found if and only if all calculations of its ledger fit.
-/

namespace Montage

/-- The first of some calculations that stops a program. -/
def Calculation.firstUnfit? (cs : List Calculation) : Option Calculation :=
  cs.find? fun c => !decide c.Fits

theorem Calculation.firstUnfit?_eq_none {cs : List Calculation} :
    firstUnfit? cs = none ↔ ∀ c ∈ cs, c.Fits := by
  simp [firstUnfit?]

theorem Calculation.firstUnfit?_append (cs ds : List Calculation) :
    firstUnfit? (cs ++ ds) = (firstUnfit? cs).or (firstUnfit? ds) :=
  List.find?_append

theorem Calculation.firstUnfit?_flatMap {α : Type} (xs : List α) (f : α → List Calculation) :
    firstUnfit? (xs.flatMap f) = xs.findSome? fun x => firstUnfit? (f x) :=
  List.find?_flatMap

/-- A whole number with the calculations on the way to it. -/
structure Ledger where
  value : Int
  calculations : List Calculation
  fits : (∀ c ∈ calculations, c.Fits) → FitsWord value
  stops : ∀ c, Calculation.firstUnfit? calculations = some c → c.Stops
  deriving DecidableEq

namespace Ledger

open Calculation

/-- The account of some ledgers stops a program where one of them does. -/
theorem stops_flatMap {ls : List Ledger} {c : Calculation}
    (h : firstUnfit? (ls.flatMap calculations) = some c) : c.Stops := by
  rw [firstUnfit?_flatMap] at h
  obtain ⟨l, -, hl⟩ := List.exists_of_findSome?_eq_some h
  exact l.stops c hl

/-- The result of a calculation, which goes into the account after those that led to its operands. -/
def calculate (ls : List Ledger) (c : Calculation) (h : c.operands = ls.map value) : Ledger where
  value := c.result?.getD 0
  calculations := ls.flatMap calculations ++ [c]
  fits hall := by
    obtain ⟨n, hn, hword⟩ := hall c (by simp)
    rw [hn]
    exact hword
  stops d hd := by
    rw [firstUnfit?_append, Option.or_eq_some_iff] at hd
    rcases hd with hd | ⟨hnone, hd⟩
    · exact stops_flatMap hd
    · obtain ⟨hc, rfl⟩ : ¬c.Fits ∧ c = d := by simpa [firstUnfit?] using hd
      refine ⟨fun n hn => ?_, hc⟩
      rw [h] at hn
      obtain ⟨l, hl, rfl⟩ := List.mem_map.1 hn
      exact l.fits fun c hc => firstUnfit?_eq_none.1 hnone c (List.mem_flatMap.2 ⟨l, hl, hc⟩)

/-- One of two ledgers, with the account of both. -/
def oneOf (a b : Ledger) (first : Bool) : Ledger where
  value := if first then a.value else b.value
  calculations := [a, b].flatMap calculations
  fits hall := by
    have hfits : ∀ l ∈ [a, b], FitsWord l.value := fun l hl =>
      l.fits fun c hc => hall c (List.mem_flatMap.2 ⟨l, hl, hc⟩)
    split
    · exact hfits a (by simp)
    · exact hfits b (by simp)
  stops _ := stops_flatMap

instance : PixelCount Ledger where
  zero := calculate [] (.hold 0) rfl
  add a b := calculate [a, b] (.add a.value b.value) rfl
  sub a b := calculate [a, b] (.sub a.value b.value) rfl
  mul a b := calculate [a, b] (.mul a.value b.value) rfl
  lt a b := a.value < b.value
  le a b := a.value ≤ b.value
  max a b := oneOf a b (decide (b.value ≤ a.value))
  min a b := oneOf a b (decide (a.value ≤ b.value))
  eqDecidable := inferInstance
  ltDecidable a b := inferInstanceAs (Decidable (a.value < b.value))
  leDecidable a b := inferInstanceAs (Decidable (a.value ≤ b.value))
  quotient a b := calculate [a, b] (.div a.value b.value) rfl
  ofInt n := calculate [] (.hold n) List.map_nil.symm
  toInt := value
  mishap? _ := none

/-- What is left of a ledger in a program that stops. -/
def toWord (l : Ledger) : Word where
  value := l.value
  mishap? := firstUnfit? l.calculations
  fits h := l.fits (firstUnfit?_eq_none.1 h)
  stops := l.stops

/-- A word is found if and only if all calculations of its ledger fit. -/
theorem isFound_toWord {l : Ledger} :
    PixelCount.IsFound l.toWord ↔ ∀ c ∈ l.calculations, c.Fits :=
  firstUnfit?_eq_none

theorem toWord_calculate (ls : List Ledger) (c : Calculation) (h : c.operands = ls.map value) :
    (calculate ls c h).toWord =
      Word.calculate (ls.map toWord) c (by rw [h, List.map_map]; rfl) := by
  refine Word.ext rfl ?_
  have hlast : firstUnfit? [c] = if c.Fits then none else some c := by
    by_cases hc : c.Fits <;> simp [firstUnfit?, hc]
  change firstUnfit? (ls.flatMap calculations ++ [c]) =
    ((ls.map toWord).findSome? Word.mishap?).or _
  rw [firstUnfit?_append, firstUnfit?_flatMap, hlast, List.findSome?_map]
  rfl

theorem toWord_oneOf (a b : Ledger) (first : Bool) :
    (oneOf a b first).toWord = Word.oneOf a.toWord b.toWord first :=
  Word.ext rfl (firstUnfit?_flatMap [a, b] calculations)

/-- Ledgers pass to words. -/
theorem passage_toWord : Passage toWord where
  zero := toWord_calculate [] (.hold 0) rfl
  add a b := toWord_calculate [a, b] (.add a.value b.value) rfl
  sub a b := toWord_calculate [a, b] (.sub a.value b.value) rfl
  mul a b := toWord_calculate [a, b] (.mul a.value b.value) rfl
  max a b := toWord_oneOf a b _
  quotient a b _ := toWord_calculate [a, b] (.div a.value b.value) rfl
  le_iff := Iff.rfl
  lt_iff := Iff.rfl
  two_pos := by decide
  ofInt n := toWord_calculate [] (.hold n) rfl
  toInt _ := rfl

/-- Ledgers pass to the whole numbers in them. -/
theorem passage_value : Passage value :=
  Word.passage.toPassage.comp passage_toWord

/-- Nothing stops a program that calculates with ledgers or with whole numbers. -/
theorem keepsMishaps_value : KeepsMishaps value :=
  fun _ => rfl

end Ledger
end Montage
