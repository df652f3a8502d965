import Montage.Text.Split

/-!
# Decimal literals

The written form of real numbers: an optional sign, digits with an optional point, and an optional
exponent of ten; or a word for infinity or for no number at all.

**Input.** A text as a list of characters.

**Algorithm.** The sign is cut off; then the text is either one of the words, or its mantissa and
exponent are read apart. A literal keeps the number exactly as written.

**Results.** `Literal.parse?` reads the whole text or nothing.
-/

namespace Montage
namespace Decimal

/-- A number as written; `finite` stands for `± mantissa · 10 ^ exponent`. -/
inductive Literal where
  | finite (negative : Bool) (mantissa : Nat) (exponent : Int)
  | infinite (negative : Bool)
  | undefined
  deriving Repr, DecidableEq

/-- The value of a decimal digit. -/
def digitValue? (c : Char) : Option Nat :=
  if '0' ≤ c ∧ c ≤ '9' then some (c.toNat - '0'.toNat) else none

/-- The value of a hexadecimal digit. -/
def hexDigit? (c : Char) : Option Nat :=
  let n := c.toNat
  if '0' ≤ c ∧ c ≤ '9' then some (n - '0'.toNat)
  else if 'a' ≤ c ∧ c ≤ 'f' then some (n - 'a'.toNat + 10)
  else if 'A' ≤ c ∧ c ≤ 'F' then some (n - 'A'.toNat + 10)
  else none

/-- Whether `c` is one of the ten decimal digits. -/
def isDigit (c : Char) : Bool :=
  (digitValue? c).isSome

/-- The number that a list of digits spells; other characters count as zero. -/
def digitsValue (cs : List Char) : Nat :=
  cs.foldl (fun n c => 10 * n + (digitValue? c).getD 0) 0

/-- A nonempty text of digits as a number. -/
def parseNat? (cs : List Char) : Option Nat :=
  if cs.isEmpty || !cs.all isDigit then none else some (digitsValue cs)

/-- A count below `bound`, with at most one leading `+`. -/
def parseCount? (bound : Nat) (cs : List Char) : Option Nat :=
  let digits := match cs with
    | '+' :: rest => rest
    | _ => cs
  (parseNat? digits).filter (· < bound)

/-- The sign of a number and what follows it. -/
def splitSign : List Char → Bool × List Char
  | '-' :: cs => (true, cs)
  | '+' :: cs => (false, cs)
  | cs => (false, cs)

namespace Literal

/-- The exponent after its mark: nothing, or a mark and a signed nonempty run of digits. -/
def parseExponent? : List Char → Option Int
  | [] => some 0
  | c :: cs =>
      if c = 'e' ∨ c = 'E' then
        let (negative, digits) := splitSign cs
        (parseNat? digits).map fun n => if negative then -(n : Int) else n
      else
        none

/-- The digits after an optional point, and the rest. -/
def fraction : List Char → List Char × List Char
  | '.' :: cs => (cs.takeWhile isDigit, cs.dropWhile isDigit)
  | cs => ([], cs)

/-- An unsigned number with digits: at least one digit, before or after the point. -/
def parseDigits? (negative : Bool) (cs : List Char) : Option Literal :=
  let whole := cs.takeWhile isDigit
  let (part, rest) := fraction (cs.dropWhile isDigit)
  if whole.isEmpty && part.isEmpty then
    none
  else
    (parseExponent? rest).map fun e =>
      finite negative (digitsValue (whole ++ part)) (e - part.length)

/-- A number in decimal notation, or a word for infinity or for no number in any letter case. -/
def parse? (cs : List Char) : Option Literal :=
  let (negative, body) := splitSign cs
  match String.ofList (Text.lower body) with
  | "inf" => some (infinite negative)
  | "infinity" => some (infinite negative)
  | "nan" => some undefined
  | _ => parseDigits? negative body

/-- The magnitude bound that decides a literal without computing its power of ten:
a nonzero `mantissa · 10 ^ exponent` lies below `10 ^ (magnitude mantissa exponent)`
and not below a tenth of it. -/
def magnitude (mantissa : Nat) (exponent : Int) : Int :=
  (Nat.toDigits 10 mantissa).length + exponent

/-- The nearest double, ties to even. Literals far out of range are decided by their magnitude. -/
def toFloat : Literal → Float
  | undefined => 0.0 / 0.0
  | infinite negative => if negative then -(1.0 / 0.0) else 1.0 / 0.0
  | finite negative mantissa exponent =>
      let size :=
        if mantissa = 0 ∨ magnitude mantissa exponent < -400 then
          0.0
        else if 400 < magnitude mantissa exponent then
          1.0 / 0.0
        else
          Float.ofScientific mantissa (decide (exponent < 0)) exponent.natAbs
      if negative then -size else size

/-- The nearest single, ties to even. -/
def toFloat32 : Literal → Float32
  | undefined => 0.0 / 0.0
  | infinite negative => if negative then -(1.0 / 0.0) else 1.0 / 0.0
  | finite negative mantissa exponent =>
      let size :=
        if mantissa = 0 ∨ magnitude mantissa exponent < -400 then
          0.0
        else if 400 < magnitude mantissa exponent then
          1.0 / 0.0
        else
          Float32.ofScientific mantissa (decide (exponent < 0)) exponent.natAbs
      if negative then -size else size

end Literal
end Decimal
end Montage
