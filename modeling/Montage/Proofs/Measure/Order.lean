import Mathlib
import Montage.Measure.Timescale

/-!
# The order of time scalars

What is less than a time is less than every time that is not less than that.

**Input.** Times of any kind, doubles included.

**Algorithm.** A floating-point number is ranked by its class, its exponent and its mantissa; what is
no number has no rank. Two numbers compare as their ranks do.

**Results.** `LawfulTimescale` holds of rationals and of doubles.
-/

namespace Montage

/-- Time scalars whose two comparisons go together. -/
class LawfulTimescale (τ : Type) [Timescale τ] : Prop where
  lt_of_lt_of_le : ∀ {a b c : τ}, a < b → b ≤ c → a < c

instance : LawfulTimescale ℚ where
  lt_of_lt_of_le := lt_of_lt_of_le

namespace Decimal

open Float.Model (UnpackedFloat)

/-- Where a number stands among all numbers. Of two negative numbers the one with the greater
exponent is less. -/
def rank? : UnpackedFloat → Option (Int ×ₗ Int ×ₗ Int)
  | .infinity .negative => some (toLex (-2, toLex (0, 0)))
  | .finite .negative mantissa exponent _ => some (toLex (-1, toLex (-exponent, -mantissa)))
  | .zero _ => some (toLex (0, toLex (0, 0)))
  | .finite .positive mantissa exponent _ => some (toLex (1, toLex (exponent, mantissa)))
  | .infinity .positive => some (toLex (2, toLex (0, 0)))
  | .notANumber => none

theorem compare_natCast (m n : Nat) : compare (m : Int) n = compare m n := by
  rw [← cmp_eq_compare, ← cmp_eq_compare]
  exact Nat.strictMono_cast.cmp_map_eq m n

theorem compare_neg (a b : Int) : compare (-a) (-b) = (compare a b).swap := by
  rw [← cmp_eq_compare, ← cmp_eq_compare, cmp_swap]
  exact StrictAnti.cmp_map_eq (fun _ _ => neg_lt_neg) a b

/-- Numbers compare as their ranks do. -/
theorem compare_eq_rank (a b : UnpackedFloat) :
    a.compare b = (rank? a).bind fun x => (rank? b).map fun y => compare x y := by
  rcases a with s | _ | s | ⟨s, m, e, hm⟩ <;> try cases s
  all_goals rcases b with s' | _ | s' | ⟨s', m', e', hm'⟩ <;> try cases s'
  -- Only finite numbers of one sign have to be looked into.
  all_goals try rfl
  · change _ = some ((compare (-e) (-e')).then (compare (-m : Int) (-m')))
    rw [compare_neg, compare_neg, compare_natCast, ← Ordering.swap_then]
    rfl
  · change _ = some ((compare e e').then (compare (m : Int) m'))
    rw [compare_natCast]
    rfl

theorem lt_iff_rank (a b : Float) :
    a < b ↔ ∃ x ∈ rank? a.toModel.unpack, ∃ y ∈ rank? b.toModel.unpack, x < y := by
  change Float.lt a b = true ↔ _
  unfold Float.lt
  rw [decide_eq_true_iff]
  change (UnpackedFloat.compare _ _ == some Ordering.lt) = true ↔ _
  rw [beq_iff_eq, compare_eq_rank]
  simp only [Option.bind_eq_some_iff, Option.map_eq_some_iff, compare_lt_iff_lt]
  rfl

theorem le_iff_rank (a b : Float) :
    a ≤ b ↔ ∃ x ∈ rank? a.toModel.unpack, ∃ y ∈ rank? b.toModel.unpack, x ≤ y := by
  change Float.le a b = true ↔ _
  unfold Float.le
  rw [decide_eq_true_iff]
  change (UnpackedFloat.compare _ _).any _ = true ↔ _
  rw [compare_eq_rank, Option.any_eq_true]
  simp only [Option.bind_eq_some_iff, Option.map_eq_some_iff]
  constructor
  · rintro ⟨_, ⟨x, hx, y, hy, rfl⟩, hle⟩
    exact ⟨x, hx, y, hy, compare_le_iff_le.1 (Ordering.isLE_iff_ne_gt.1 hle)⟩
  · rintro ⟨x, hx, y, hy, hle⟩
    exact ⟨_, ⟨x, hx, y, hy, rfl⟩, Ordering.isLE_iff_ne_gt.2 (compare_le_iff_le.2 hle)⟩

end Decimal

instance : LawfulTimescale Float where
  lt_of_lt_of_le {a b c} hab hbc := by
    obtain ⟨x, hx, y, hy, hlt⟩ := (Decimal.lt_iff_rank a b).1 hab
    obtain ⟨y', hy', z, hz, hle⟩ := (Decimal.le_iff_rank b c).1 hbc
    obtain rfl := Option.mem_unique hy hy'
    exact (Decimal.lt_iff_rank a c).2 ⟨x, hx, z, hz, hlt.trans_le hle⟩

end Montage
