/-!
# Exact values

The real number that a floating-point value stands for, as a quotient of whole numbers, and its
text with a set number of places.

**Input.** A value of a number type.

**Algorithm.** A double is decoded from its bits into `± mantissa · 2 ^ exponent`. Quotients are
rounded in whole numbers.

**Results.** A rounded quotient differs from the quotient by at most one half
(`roundHalfEven_near`, `roundHalfUp_near`).
-/

namespace Montage
namespace Decimal

/-- A real number `± num / den`, an infinity, or no number. -/
inductive Exact where
  | finite (negative : Bool) (num den : Nat)
  | infinite (negative : Bool)
  | undefined
  deriving Repr, DecidableEq

/-- The nearest whole number to `num / den`; a half goes to the even neighbour. -/
def roundHalfEven (num den : Nat) : Nat :=
  let whole := num / den
  let rest := num % den
  if 2 * rest < den then whole
  else if den < 2 * rest then whole + 1
  else if whole % 2 = 0 then whole
  else whole + 1

/-- The nearest whole number to `num / den`; a half goes up. -/
def roundHalfUp (num den : Nat) : Nat :=
  (2 * num + den) / (2 * den)

/-- The least whole number that is not below `num / den`. -/
def roundUp (num den : Nat) : Nat :=
  (num + (den - 1)) / den

theorem roundHalfEven_near (num den : Nat) (h : 0 < den) :
    2 * (roundHalfEven num den * den) ≤ 2 * num + den ∧
      2 * num ≤ 2 * (roundHalfEven num den * den) + den := by
  have hd := Nat.div_add_mod num den
  have hm := Nat.mod_lt num h
  have hc : num / den * den = den * (num / den) := Nat.mul_comm _ _
  have hs : (num / den + 1) * den = den * (num / den) + den := by
    rw [Nat.add_mul, hc, Nat.one_mul]
  unfold roundHalfEven
  simp only
  split
  · rw [hc]; omega
  · split
    · rw [hs]; omega
    · split
      · rw [hc]; omega
      · rw [hs]; omega

theorem roundHalfUp_near (num den : Nat) (h : 0 < den) :
    2 * (roundHalfUp num den * den) ≤ 2 * num + den ∧
      2 * num < 2 * (roundHalfUp num den * den) + den := by
  have hd := Nat.div_add_mod (2 * num + den) (2 * den)
  have hm := Nat.mod_lt (2 * num + den) (show 0 < 2 * den by omega)
  unfold roundHalfUp
  have hc : 2 * ((2 * num + den) / (2 * den) * den) = 2 * den * ((2 * num + den) / (2 * den)) := by
    rw [Nat.mul_comm ((2 * num + den) / (2 * den)) den, Nat.mul_assoc]
  rw [hc]
  omega

namespace Exact

/-- The value of a double. -/
def ofFloat (x : Float) : Exact :=
  let bits := x.toBits.toNat
  let negative := decide (Nat.pow 2 63 ≤ bits)
  let biased : Nat := bits / Nat.pow 2 52 % Nat.pow 2 11
  let fraction : Nat := bits % Nat.pow 2 52
  if biased = 2047 then
    if fraction = 0 then infinite negative else undefined
  else
    let mantissa := if biased = 0 then fraction else fraction + Nat.pow 2 52
    let exponent := if biased = 0 then 1 else biased
    finite negative (mantissa * Nat.pow 2 (exponent - 1075)) (Nat.pow 2 (1075 - exponent))

/-- The value of a quotient. -/
def ofRat (q : Rat) : Exact :=
  finite (decide (q.num < 0)) q.num.natAbs q.den

/-- Whether the value is a real number. -/
def isFinite : Exact → Bool
  | finite .. => true
  | _ => false

/-- The nearest whole number, halves away from zero, within the given bounds;
zero if there is no value. -/
def roundWithin (low high : Int) : Exact → Int
  | undefined => 0
  | infinite negative => if negative then low else high
  | finite negative num den =>
      let size : Int := roundHalfUp num den
      max low (min high (if negative then -size else size))

/-- The least whole number that is not below the value, between zero and `high`. -/
def ceilWithin (high : Nat) : Exact → Nat
  | undefined => 0
  | infinite negative => if negative then 0 else high
  | finite negative num den => if negative then 0 else min high (roundUp num den)

/-- The digits `cs` with zeros in front, at least `width` of them. -/
def padZeros (width : Nat) (cs : List Char) : List Char :=
  List.replicate (width - cs.length) '0' ++ cs

/-- The value with exactly `places` digits after the point, a half going to the even neighbour.
The sign is written also for a value that rounds to zero. -/
def places (places : Nat) : Exact → String
  | undefined => "NaN"
  | infinite negative => if negative then "-inf" else "inf"
  | finite negative num den =>
      let scaled := roundHalfEven (num * Nat.pow 10 places) den
      let digits := padZeros (places + 1) (Nat.toDigits 10 scaled)
      let whole := digits.take (digits.length - places)
      let part := digits.drop (digits.length - places)
      let point := if places = 0 then [] else ['.']
      String.ofList ((if negative then ['-'] else []) ++ whole ++ point ++ part)

end Exact
end Decimal
end Montage
