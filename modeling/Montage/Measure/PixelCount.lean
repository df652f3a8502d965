import Montage.Decimal.Exact
import Montage.Measure.Calculation

/-!
# Pixel counts

The numbers that boxes are made of. Documents run on words of 64 bits; the laws of layout are about
whole numbers, so everything that computes with boxes is written for any `PixelCount`.

**Input.** A number type with arithmetic and a decidable order.

**Algorithm.** The class adds to it a quotient that is cut toward zero, the passage to and from whole
numbers, and what went wrong on the way to a number.

**Results.** Whole numbers are pixel counts, and nothing goes wrong among them.
-/

namespace Montage

/-- Numbers that count pixels. -/
class PixelCount (π : Type) extends
    Zero π, Add π, Sub π, Mul π, LT π, LE π, Max π, Min π where
  /-- Equality decides. -/
  eqDecidable : DecidableEq π
  /-- Strict comparison decides. -/
  ltDecidable : DecidableLT π
  /-- Comparison decides. -/
  leDecidable : DecidableLE π
  /-- The quotient without its fraction. -/
  quotient : π → π → π
  /-- The count of a whole number. -/
  ofInt : Int → π
  /-- The whole number of a count. -/
  toInt : π → Int
  /-- The calculation that stops a program on its way to a count, if there is one. -/
  mishap? : π → Option Calculation

namespace PixelCount

attribute [reducible, instance] eqDecidable ltDecidable leDecidable

/-- The least and the greatest count that a declared value can have. -/
def bounds : Int × Int :=
  (Int64.minValue.toInt, Int64.maxValue.toInt)

variable {π : Type} [PixelCount π]

/-- The nearest count to a value, halves away from zero, cut to the bounds. -/
def nearest (x : Decimal.Exact) : π :=
  ofInt (x.roundWithin bounds.1 bounds.2)

/-- The decimal text of a count. -/
def text (n : π) : String :=
  (toInt n).repr

/-- The first calculation that stops a program on its way to some counts, which are found in order. -/
def firstMishap? (ns : List π) : Option Calculation :=
  ns.findSome? mishap?

/-- A count that a program comes to without being stopped. -/
def IsFound (n : π) : Prop :=
  mishap? n = none

instance (n : π) : Decidable (IsFound n) :=
  inferInstanceAs (Decidable (mishap? n = none))

theorem firstMishap?_eq_none {ns : List π} : firstMishap? ns = none ↔ ∀ n ∈ ns, IsFound n :=
  List.findSome?_eq_none_iff

theorem exists_of_firstMishap? {ns : List π} {c : Calculation} (h : firstMishap? ns = some c) :
    ∃ n ∈ ns, mishap? n = some c :=
  List.exists_of_findSome?_eq_some h

theorem firstMishap?_append_of_none {ns ms : List π} (h : firstMishap? ns = none) :
    firstMishap? (ns ++ ms) = firstMishap? ms := by
  rw [firstMishap?, List.findSome?_append, ← firstMishap?, h, Option.none_or]
  rfl

theorem firstMishap?_append_of_some {ns ms : List π} {c : Calculation}
    (h : firstMishap? ns = some c) : firstMishap? (ns ++ ms) = some c := by
  rw [firstMishap?, List.findSome?_append, ← firstMishap?, h, Option.some_or]

end PixelCount

/-- Whole numbers. -/
instance : PixelCount Int where
  -- named in full, so that no algebra that is imported elsewhere changes what stands here
  toZero := @Zero.ofOfNat0 Int instOfNat
  eqDecidable := inferInstance
  ltDecidable := inferInstance
  leDecidable := inferInstance
  quotient := Int.tdiv
  ofInt n := n
  toInt n := n
  mishap? _ := none

end Montage
