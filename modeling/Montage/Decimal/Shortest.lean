import Montage.Decimal.Exact

/-!
# Shortest decimals

The text of a double with the fewest digits that read back to it.

**Input.** A positive finite double as `mantissa · 2 ^ exponent`.

**Algorithm.** The reals that round to the double form an interval around it. For one, two, … digits
the two neighbours of the double on that decimal grid are tested; the first grid with a neighbour in
the interval gives the digits, and of two neighbours the nearer one, on a tie the upper.

**Results.** All comparisons are between whole numbers, so the digits are exact.
-/

namespace Montage
namespace Decimal

/-- A positive decimal `digits · 10 ^ exponent`. -/
structure Scientific where
  digits : Nat
  exponent : Int
  deriving Repr, DecidableEq

namespace Scientific

/-- Without zeros at the end of the digits; `fuel` bounds their number. -/
def stripZeros : Nat → Scientific → Scientific
  | 0, d => d
  | fuel + 1, d =>
      if d.digits % 10 = 0 ∧ d.digits ≠ 0 then
        stripZeros fuel ⟨d.digits / 10, d.exponent + 1⟩
      else
        d

/-- The exponent of the first digit plus one: the digits before the point. -/
def pointAt (d : Scientific) : Int :=
  (Nat.toDigits 10 d.digits).length + d.exponent

/-- All digits written out, without exponent. -/
def plain (d : Scientific) : List Char :=
  let digits := Nat.toDigits 10 d.digits
  let point := d.pointAt
  if 0 ≤ d.exponent then
    digits ++ List.replicate d.exponent.toNat '0'
  else if 0 < point then
    digits.take point.toNat ++ '.' :: digits.drop point.toNat
  else
    '0' :: '.' :: (List.replicate (-point).toNat '0' ++ digits)

/-- The exponent of the first digit, with its sign. -/
def exponentMark (d : Scientific) : List Char :=
  let exponent := d.pointAt - 1
  let sign := if exponent < 0 then '-' else '+'
  'e' :: sign :: Nat.toDigits 10 exponent.natAbs

/-- One digit before the point and an exponent. -/
def withExponent (d : Scientific) : List Char :=
  let exponent := d.exponentMark
  match Nat.toDigits 10 d.digits with
  | [] => exponent
  | [c] => c :: exponent
  | c :: cs => c :: '.' :: (cs ++ exponent)

end Scientific

/-- A positive real around which all reals in an interval round to one double, over a common
denominator. The ends belong to the interval if `closed`. -/
structure Rounding where
  low : Nat
  value : Nat
  high : Nat
  den : Nat
  closed : Bool
  deriving Repr, DecidableEq

namespace Rounding

/-- The interval of the double `mantissa · 2 ^ exponent`. Below a power of two the next double is
half as far away, unless the double is among the least. -/
def ofParts (mantissa : Nat) (exponent : Int) (tight : Bool) : Rounding :=
  let up : Nat := Nat.pow 2 (exponent - 2).toNat
  let below := if tight then 1 else 2
  { low := (4 * mantissa - below) * up
    value := 4 * mantissa * up
    high := (4 * mantissa + 2) * up
    den := Nat.pow 2 (2 - exponent).toNat
    closed := mantissa % 2 == 0 }

/-- Whether `num / den` rounds to the double. -/
def contains (r : Rounding) (num den : Nat) : Bool :=
  if r.closed then
    r.low * den ≤ num * r.den && num * r.den ≤ r.high * den
  else
    r.low * den < num * r.den && num * r.den < r.high * den

/-- The exponent of ten that the value is at least and below whose successor it is. -/
def leadingExponent (r : Rounding) : Int :=
  let guess : Int := (Nat.toDigits 10 r.value).length - (Nat.toDigits 10 r.den).length
  if r.den * Nat.pow 10 guess.toNat ≤ r.value * Nat.pow 10 (-guess).toNat then guess
  else guess - 1

/-- The neighbour of the value with `count` digits that rounds to the double, if there is one. -/
def neighbour? (r : Rounding) (count : Nat) : Option Scientific :=
  let grid : Int := r.leadingExponent + 1 - count
  let up : Nat := Nat.pow 10 grid.toNat
  let down : Nat := Nat.pow 10 (-grid).toNat
  let num := r.value * down
  let den := r.den * up
  let lower := num / den
  let upper := lower + 1
  let lowerFits := r.contains (lower * up) down
  let upperFits := r.contains (upper * up) down
  if lowerFits && (!upperFits || 2 * (num % den) < den) then
    some ⟨lower, grid⟩
  else if upperFits then
    some ⟨upper, grid⟩
  else
    none

/-- The fewest digits, at most seventeen. -/
def shortest (r : Rounding) : Scientific :=
  let found := (List.range 17).findSome? fun n => r.neighbour? (n + 1)
  (found.getD ⟨r.value / r.den, 0⟩).stripZeros 17

end Rounding

/-- The shortest decimal of a positive finite double. -/
def shortestOf (x : Float) : Scientific :=
  let bits := x.toBits.toNat
  let biased : Nat := bits / Nat.pow 2 52 % Nat.pow 2 11
  let fraction : Nat := bits % Nat.pow 2 52
  if biased = 0 then
    (Rounding.ofParts fraction (-1074) false).shortest
  else
    let tight := fraction == 0 && decide (1 < biased)
    (Rounding.ofParts (fraction + Nat.pow 2 52) ((biased : Int) - 1075) tight).shortest

/-- The fewest digits that read back, never with an exponent, and no point in whole numbers. -/
def plainText (x : Float) : String :=
  match Exact.ofFloat x with
  | .undefined => "NaN"
  | .infinite negative => if negative then "-inf" else "inf"
  | .finite negative num _ =>
      let body := if num = 0 then ['0'] else (shortestOf x).plain
      String.ofList (if negative then '-' :: body else body)

/-- The fewest digits that read back, with a point in whole numbers, and an exponent below
`10 ^ -5` and from `10 ^ 16` on. There is none for an infinity or for no number. -/
def numberText? (x : Float) : Option String :=
  match Exact.ofFloat x with
  | .finite negative num _ =>
      let body :=
        if num = 0 then
          ['0', '.', '0']
        else
          let d := shortestOf x
          if d.pointAt ≤ -5 ∨ 16 < d.pointAt then
            d.withExponent
          else if 0 ≤ d.exponent then
            d.plain ++ ['.', '0']
          else
            d.plain
      some (String.ofList (if negative then '-' :: body else body))
  | _ => none

end Decimal
end Montage
