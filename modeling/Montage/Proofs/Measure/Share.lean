import Mathlib
import Montage.Measure.Length

/-!
# Shares of counts

A share that is not negative, of a count that is not negative, is not negative.

**Input.** Floating-point numbers and pixel counts.

**Algorithm.** Products and quotients are rounded without looking at their sign, so whether a sign
is negative can be followed through the packed forms of numbers. A zero may carry either sign.

**Results.** `Length.resolve_nonneg`: a length that is not negative resolves to no negative count.
-/

namespace Montage
namespace Decimal

open Float.Model (Format)
open Float.Model.UnpackedFloat (Sign Accuracy roundWithAccuracy unpackSign unpackExponent
  unpackMantissa unpackSign_packComponents)

/-- A number that is zero or more, or no number. -/
def IsUnsigned : Float.Model.UnpackedFloat → Prop
  | .infinity sign => sign = .positive
  | .finite sign _ _ _ => sign = .positive
  | .zero _ => True
  | .notANumber => True

theorem isUnsigned_round (mantissa : Nat) (exponent : Int) (accuracy : Accuracy) :
    IsUnsigned (roundWithAccuracy .binary64 .positive mantissa exponent accuracy) := by
  unfold roundWithAccuracy
  simp only
  split
  · trivial
  · rfl

theorem IsUnsigned.mul {a b : Float.Model.UnpackedFloat} (ha : IsUnsigned a) (hb : IsUnsigned b) :
    IsUnsigned (.mul .binary64 a b) := by
  cases a <;> cases b <;> simp only [IsUnsigned] at ha hb <;> subst_vars <;>
    first
    | trivial
    | exact isUnsigned_round _ _ _

/-- A quotient by a positive number. -/
theorem IsUnsigned.div {a : Float.Model.UnpackedFloat} (ha : IsUnsigned a) {mantissa : Nat}
    {exponent : Int} (h : 0 < mantissa) :
    IsUnsigned (.div .binary64 a (.finite .positive mantissa exponent h)) := by
  cases a <;> simp only [IsUnsigned] at ha <;> subst_vars <;>
    first
    | trivial
    | exact isUnsigned_round _ _ _

theorem isUnsigned_ofNat (n : Nat) : IsUnsigned (.ofNat .binary64 n) := by
  unfold Float.Model.UnpackedFloat.ofNat Float.Model.UnpackedFloat.ofInt
    Float.Model.UnpackedFloat.normalize
  split
  · next h =>
      rw [Int.compare_eq_lt] at h
      omega
  · trivial
  · exact isUnsigned_round _ _ _

/-! ### Packed numbers -/

section

variable {format : Format}

/-- Without a sign bit a number is not negative. -/
theorem isUnsigned_unpack {b : BitVec format.numBits} (h : unpackSign b = 0#1) :
    IsUnsigned (.unpack format b) := by
  have hsign : Sign.ofBitVec (unpackSign b) = .positive := by
    rw [h]
    rfl
  unfold Float.Model.UnpackedFloat.unpack
  simp only [hsign]
  repeat' split
  all_goals first | rfl | trivial

theorem unpackSign_pack {mantissa : Nat} {exponent : Int} (h : 0 < mantissa) :
    unpackSign (Float.Model.UnpackedFloat.pack format (.finite .positive mantissa exponent h)) =
      0#1 := by
  unfold Float.Model.UnpackedFloat.pack
  simp only
  repeat' split
  all_goals exact unpackSign_packComponents _ _ _

end

/-- A number that is packed does not become negative. -/
theorem IsUnsigned.pack {a : Float.Model.UnpackedFloat} (ha : IsUnsigned a) :
    IsUnsigned (Float.Model.pack a).unpack := by
  cases a with
  | zero sign => cases sign <;> trivial
  | notANumber => trivial
  | infinity sign =>
      obtain rfl : sign = .positive := ha
      rfl
  | finite sign mantissa exponent h =>
      obtain rfl : sign = .positive := ha
      exact isUnsigned_unpack (unpackSign_pack h)

/-! ### Floating-point numbers -/

/-- A floating-point number that is zero or more, or no number. -/
def Unsigned (x : Float) : Prop :=
  IsUnsigned x.toModel.unpack

theorem Unsigned.mul {x y : Float} (hx : Unsigned x) (hy : Unsigned y) : Unsigned (x * y) :=
  (IsUnsigned.mul hx hy).pack

theorem Unsigned.hundredth {x : Float} (hx : Unsigned x) : Unsigned (x / 100.0) :=
  (IsUnsigned.div hx (by decide : 0 < 7036874417766400)).pack

theorem unsigned_toFloat (n : UInt64) : Unsigned n.toFloat :=
  (isUnsigned_ofNat n.toNat).pack

theorem isUnsigned_ofScientific (n : Nat) (e : Int) :
    IsUnsigned (.ofScientific .binary64 n e) := by
  unfold Float.Model.UnpackedFloat.ofScientific
  repeat' split
  · trivial
  · rfl
  · trivial
  · exact IsUnsigned.mul rfl rfl
  · exact IsUnsigned.div (a := .finite .positive n 0 _) rfl _

theorem unsigned_ofNat (n : Nat) : Unsigned (Float.ofNat n) := by
  have hone : getElem Float.exactlyRepresentablePowersOfTen 0 (by decide) =
      (1 : UInt64).toFloat := by
    decide +kernel
  change Unsigned (Float.ofScientific n false 0)
  unfold Float.ofScientific
  split
  · rw [if_neg Bool.false_ne_true, hone]
    exact (unsigned_toFloat _).mul (unsigned_toFloat 1)
  · exact (isUnsigned_ofScientific n _).pack

theorem unsigned_of_nonneg {x : Float} (h : 0 ≤ x) : Unsigned x := by
  have hzero : (0 : Float) = (0 : UInt64).toFloat := by decide +kernel
  rw [hzero] at h
  have hle : (0 : UInt64).toFloat.toModel ≤ x.toModel := of_decide_eq_true h
  change Float.Model.UnpackedFloat.le (.zero .positive) x.toModel.unpack = true at hle
  unfold Unsigned
  revert hle
  generalize x.toModel.unpack = a
  intro hle
  cases a with
  | infinity sign => cases sign <;> first | rfl | cases hle
  | notANumber => trivial
  | zero sign => trivial
  | finite sign => cases sign <;> first | rfl | cases hle

/-! ### Rounding -/

/-- The fields of a packed number are those of its word. -/
theorem toNat_fields (b : BitVec 64) :
    (@unpackSign .binary64 b).toNat = b.toNat / 2 ^ 63 ∧
      (@unpackExponent .binary64 b).toNat = b.toNat / 2 ^ 52 % 2 ^ 11 ∧
      (@unpackMantissa .binary64 b).toNat = b.toNat % 2 ^ 52 := by
  have hb := b.isLt
  simp only [unpackSign, unpackExponent, unpackMantissa, BitVec.toNat_cast,
    BitVec.extractLsb_toNat, Nat.shiftRight_eq_div_pow]
  refine ⟨?_, trivial, ?_⟩
  · omega
  · omega

/-- A word with a sign bit is that of a number that is not negative only if it has no value, or the
value zero. -/
theorem fields_of_signed {b : BitVec 64} (h : IsUnsigned (.unpack .binary64 b))
    (hs : 2 ^ 63 ≤ b.toNat) :
    b.toNat / 2 ^ 52 % 2 ^ 11 = 2047 ∧ b.toNat % 2 ^ 52 ≠ 0 ∨
      b.toNat / 2 ^ 52 % 2 ^ 11 = 0 ∧ b.toNat % 2 ^ 52 = 0 := by
  have hb := b.isLt
  obtain ⟨hsign, hexponent, hmantissa⟩ := toNat_fields b
  have hnegative : Sign.ofBitVec (@unpackSign .binary64 b) = .negative := by
    refine if_neg fun hzero => ?_
    rw [hzero] at hsign
    simp only [BitVec.toNat_ofNat] at hsign
    omega
  unfold Float.Model.UnpackedFloat.unpack at h
  simp only [hnegative] at h
  split at h
  · next he =>
      rw [he] at hexponent
      split at h
      · cases h
      · next hm =>
          refine Or.inl ⟨hexponent.symm, fun hzero => hm ?_⟩
          exact BitVec.eq_of_toNat_eq (hmantissa.trans hzero)
  · split at h
    · next he =>
        rw [he] at hexponent
        split at h
        · next hm =>
            rw [hm] at hmantissa
            exact Or.inr ⟨hexponent.symm, hmantissa.symm⟩
        · cases h
    · cases h

section

variable {low high : Int} (hhigh : 0 ≤ high)
include hhigh

theorem roundWithin_finite (num den : Nat) :
    0 ≤ (Exact.finite false num den).roundWithin low high := by
  simp only [Exact.roundWithin, Bool.false_eq_true, if_false]
  omega

theorem roundWithin_zero {den : Nat} (h : 0 < den) :
    0 ≤ (Exact.finite true 0 den).roundWithin low high := by
  have hzero : roundHalfUp 0 den = 0 := Nat.div_eq_of_lt (by omega)
  simp only [Exact.roundWithin, if_true, hzero]
  omega

/-- A number that is not negative is not rounded below zero. -/
theorem roundWithin_nonneg {x : Float} (h : Unsigned x) :
    0 ≤ (Exact.ofFloat x).roundWithin low high := by
  have hfields := fields_of_signed (b := x.toBits.toBitVec) h
  simp only [UInt64.toNat_toBitVec] at hfields
  unfold Exact.ofFloat
  simp only [Nat.pow_eq]
  generalize x.toBits.toNat = n at hfields ⊢
  by_cases hs : 2 ^ 63 ≤ n
  · rcases hfields hs with ⟨he, hm⟩ | ⟨he, hm⟩
    · rw [if_pos he, if_neg hm]
      exact Int.le_refl 0
    · rw [if_neg (by omega), if_pos he, hm, Nat.zero_mul, decide_eq_true hs]
      exact roundWithin_zero hhigh (Nat.two_pow_pos _)
  · rw [decide_eq_false hs]
    repeat' split
    · exact hhigh
    · exact Int.le_refl 0
    · exact roundWithin_finite hhigh _ _
    · exact roundWithin_finite hhigh _ _

end

end Decimal

namespace Length

/-- A length that is not negative, or open. -/
def IsNonneg : Length Int → Prop
  | auto => True
  | pixel n => 0 ≤ n
  | percent share => 0 ≤ share
  | ofWidth share => 0 ≤ share
  | ofHeight share => 0 ≤ share
  | ofShortSide share => 0 ≤ share
  | ofLongSide share => 0 ≤ share

instance : DecidablePred IsNonneg
  | auto => inferInstanceAs (Decidable True)
  | pixel n => inferInstanceAs (Decidable (0 ≤ n))
  | percent share => inferInstanceAs (Decidable (0 ≤ share))
  | ofWidth share => inferInstanceAs (Decidable (0 ≤ share))
  | ofHeight share => inferInstanceAs (Decidable (0 ≤ share))
  | ofShortSide share => inferInstanceAs (Decidable (0 ≤ share))
  | ofLongSide share => inferInstanceAs (Decidable (0 ≤ share))

open Decimal

theorem shareOf_nonneg {base share : Float} (hb : Unsigned base) (hs : 0 ≤ share) :
    (shareOf base share : Length Int).IsNonneg :=
  roundWithin_nonneg (by decide) (hb.mul (unsigned_of_nonneg hs)).hundredth

/-- A length that is not negative resolves to no negative count, against a parent that is not
negative. -/
theorem resolve_nonneg {parent natural : Option Int} (hp : ∀ n, parent = some n → 0 ≤ n)
    (hn : ∀ n, natural = some n → 0 ≤ n) (frame : Resolution) {l : Length Int} (h : l.IsNonneg) :
    (l.resolve parent natural frame).IsNonneg := by
  cases l with
  | auto => trivial
  | pixel n => exact h
  | percent share =>
      cases parent with
      | some p =>
          obtain ⟨m, rfl⟩ := Int.eq_ofNat_of_zero_le (hp p rfl)
          exact shareOf_nonneg (unsigned_ofNat m) h
      | none =>
          cases natural with
          | some n => exact hn n rfl
          | none => trivial
  | ofWidth share => exact shareOf_nonneg (unsigned_ofNat _) h
  | ofHeight share => exact shareOf_nonneg (unsigned_ofNat _) h
  | ofShortSide share => exact shareOf_nonneg (unsigned_ofNat _) h
  | ofLongSide share => exact shareOf_nonneg (unsigned_ofNat _) h

end Length
end Montage
