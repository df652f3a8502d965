import Mathlib
import Montage.Measure.Word

/-!
# Words and whole numbers

What words tell about the whole numbers that they stand for.

**Input.** Words, and the numbers beside them.

**Algorithm.** The number beside a word is exact whatever happens on the way, so sums, quotients and
comparisons of words are those of numbers. A word is found if and only if no calculation on the way to
it leaves the words.

**Results.**
* `Word.isFound_add`, `Word.isFound_mul`: when a sum and a product are found.
* `Word.eq_of_isFound`: words that are found are told apart by their numbers.
-/

namespace Montage

namespace FitsWord

theorem zero : FitsWord 0 := by
  decide

/-- What lies between nothing and a word is a word. -/
theorem of_le {m n : Int} (h0 : 0 ≤ m) (hle : m ≤ n) (hn : FitsWord n) : FitsWord m :=
  ⟨by omega, hle.trans_lt hn.2⟩

/-- A quotient by what is positive stays a word. -/
theorem tdiv {m n : Int} (hm : FitsWord m) (hn : 0 < n) : FitsWord (m.tdiv n) := by
  rcases le_or_gt 0 m with h0 | h0
  · exact of_le (Int.tdiv_nonneg h0 hn.le) (Int.tdiv_le_self n h0) hm
  · have hle : (-m).tdiv n ≤ -m := Int.tdiv_le_self n (by omega)
    have hnonneg : 0 ≤ (-m).tdiv n := Int.tdiv_nonneg (by omega) hn.le
    rw [Int.neg_tdiv] at hle hnonneg
    have := hm.1
    exact ⟨by omega, by omega⟩

end FitsWord

open PixelCount

namespace Word

variable {a b : Word} {n : Int}

theorem ext (hv : a.value = b.value) (hm : a.mishap? = b.mishap?) : a = b := by
  cases a
  cases b
  cases hv
  cases hm
  rfl

/-! ### The numbers beside words -/

@[simp] theorem value_zero : (0 : Word).value = 0 := rfl

@[simp] theorem value_ofInt (n : Int) : (PixelCount.ofInt n : Word).value = n := rfl

@[simp] theorem value_add (a b : Word) : (a + b).value = a.value + b.value := rfl

@[simp] theorem value_sub (a b : Word) : (a - b).value = a.value - b.value := rfl

@[simp] theorem value_mul (a b : Word) : (a * b).value = a.value * b.value := rfl

@[simp] theorem value_max (a b : Word) : (max a b).value = max a.value b.value := by
  change (if decide (b.value ≤ a.value) = true then a.value else b.value) = _
  by_cases h : b.value ≤ a.value
  · rw [if_pos (decide_eq_true h), max_eq_left h]
  · rw [if_neg (by simpa using h), max_eq_right (by omega)]

@[simp] theorem value_quotient (a b : Word) :
    (PixelCount.quotient a b).value = a.value.tdiv b.value := by
  change (Calculation.result? (.div a.value b.value)).getD 0 = _
  by_cases h : b.value = 0
  · simp [Calculation.result?, h]
  · simp [Calculation.result?, h]

/-! ### Words that are found -/

theorem isFound_calculate {ws : List Word} {c : Calculation} {h : c.operands = ws.map value} :
    IsFound (calculate ws c h) ↔ (∀ w ∈ ws, IsFound w) ∧ c.Fits := by
  change Option.or _ _ = none ↔ _
  rw [Option.or_eq_none_iff, List.findSome?_eq_none_iff]
  refine and_congr_right fun _ => ?_
  split
  · next hfits => exact ⟨fun _ => hfits, fun _ => rfl⟩
  · next hfits => exact ⟨nofun, fun h => absurd h hfits⟩

theorem isFound_ofInt : IsFound (PixelCount.ofInt n : Word) ↔ FitsWord n :=
  (isFound_calculate (h := rfl)).trans (by simp [Calculation.Fits, Calculation.result?])

theorem isFound_zero : IsFound (0 : Word) :=
  isFound_ofInt.2 FitsWord.zero

theorem isFound_add : IsFound (a + b) ↔ (IsFound a ∧ IsFound b) ∧ FitsWord (a.value + b.value) :=
  isFound_calculate.trans (by simp [Calculation.Fits, Calculation.result?])

theorem isFound_mul : IsFound (a * b) ↔ (IsFound a ∧ IsFound b) ∧ FitsWord (a.value * b.value) :=
  isFound_calculate.trans (by simp [Calculation.Fits, Calculation.result?])

/-- A quotient by what is positive is found. -/
theorem isFound_quotient (hb : 0 < b) :
    IsFound (PixelCount.quotient a b) ↔ IsFound a ∧ IsFound b := by
  have hpos : 0 < b.value := hb
  have hfits : IsFound a → (Calculation.div a.value b.value).Fits := fun ha =>
    ⟨_, if_neg hpos.ne', (a.fits ha).tdiv hpos⟩
  refine isFound_calculate.trans ?_
  simp only [List.forall_mem_cons, List.not_mem_nil, false_implies, implies_true, and_true]
  exact ⟨fun h => h.1, fun h => ⟨h, hfits h.1⟩⟩

theorem isFound_max : IsFound (max a b) ↔ IsFound a ∧ IsFound b := by
  change [a, b].findSome? mishap? = none ↔ _
  rw [List.findSome?_eq_none_iff]
  simp only [List.forall_mem_cons, List.not_mem_nil, false_implies, implies_true, and_true]
  rfl

theorem fits_of_isFound (h : IsFound a) : FitsWord a.value :=
  a.fits h

/-- Words that are found are told apart by their numbers. -/
theorem eq_of_isFound (ha : IsFound a) (hb : IsFound b) (h : a.value = b.value) : a = b :=
  ext h (ha.trans hb.symm)

/-- A calculation that stops a program on its way to a word leaves the words. -/
theorem stops_of_mishap? {c : Calculation} (h : PixelCount.mishap? a = some c) : c.Stops :=
  a.stops c h

end Word

end Montage
