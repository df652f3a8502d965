import Montage.Decimal.Exact
import Montage.Decimal.Literal

/-!
# Time scalars

The numbers that lengths of time are made of. Documents run on doubles; the laws of the timeline are
about exact rationals, so everything that computes with times is written for any `Timescale`.

**Input.** A number type with arithmetic and a decidable order.

**Algorithm.** The class adds to it the greater and the lesser of two times, reading from a decimal
literal, and the exact value.

**Results.** Doubles and rationals are time scalars. On rationals `longer` and `shorter` are maximum
and minimum.
-/

namespace Montage

/-- Numbers that measure time. -/
class Timescale (τ : Type) extends
    Zero τ, Add τ, Sub τ, Mul τ, Div τ, LT τ, LE τ, OfScientific τ where
  /-- Strict comparison decides. -/
  ltDecidable : DecidableLT τ
  /-- Comparison decides. -/
  leDecidable : DecidableLE τ
  /-- The greater of two times. -/
  longer : τ → τ → τ
  /-- The lesser of two times. -/
  shorter : τ → τ → τ
  /-- The time that a literal denotes, if it denotes a real number. -/
  ofLiteral? : Decimal.Literal → Option τ
  /-- The value as a quotient of whole numbers. -/
  exact : τ → Decimal.Exact

namespace Timescale

attribute [reducible, instance] ltDecidable leDecidable

variable {τ : Type} [Timescale τ]

/-- A whole number of seconds or frames. -/
def ofNat (n : Nat) : τ :=
  OfScientific.ofScientific n false 0

/-- Six places after the point, then without zeros at the end and without a bare point: the form in
which filters take times and rates. -/
def text (t : τ) : String :=
  let dropEnd (c : Char) (cs : List Char) := (cs.reverse.dropWhile (· == c)).reverse
  let digits := dropEnd '.' (dropEnd '0' ((exact t).places 6).toList)
  if digits.isEmpty || digits == ['-', '0'] then "0" else String.ofList digits

end Timescale

/-- Doubles. The greater of a number and no number is the number, of two zeros it is the second. -/
instance : Timescale Float where
  ltDecidable := inferInstance
  leDecidable := inferInstance
  longer a b := if a.isNaN then b else if a ≤ b then b else a
  shorter a b := if a.isNaN then b else if b ≤ a then b else a
  ofLiteral? l :=
    let x := l.toFloat
    if x.isFinite then some x else none
  exact := Decimal.Exact.ofFloat

namespace Decimal.Literal

/-- The literal as a rational, if it denotes a real number. -/
def toRat? : Literal → Option Rat
  | finite negative mantissa exponent =>
      let size : Rat := OfScientific.ofScientific mantissa (decide (exponent < 0)) exponent.natAbs
      some (if negative then -size else size)
  | _ => none

end Decimal.Literal

/-- Exact rationals. -/
instance : Timescale Rat where
  -- named in full, so that no algebra that is imported elsewhere changes what stands here
  toZero := @Zero.ofOfNat0 Rat Rat.instOfNat
  ltDecidable := inferInstance
  leDecidable := inferInstance
  longer := Rat.instMax.max
  shorter := Rat.instMin.min
  ofLiteral? := Decimal.Literal.toRat?
  exact := Decimal.Exact.ofRat

end Montage
