/-!
# Calculations

What is calculated with two words of 64 bits, and when that stops a program.

**Input.** Whole numbers that words hold.

**Algorithm.** The exact result is found first. If there is none, or if no word holds it, the program
stops.

**Results.** `Calculation.Stops` tells when a program stops, and `Calculation.message` what it says.
-/

namespace Montage

/-- A whole number that a word of 64 bits holds. -/
def FitsWord (n : Int) : Prop :=
  -0x8000000000000000 ≤ n ∧ n < 0x8000000000000000

instance : DecidablePred FitsWord :=
  fun _ => inferInstanceAs (Decidable (_ ∧ _))

/-- Something that is calculated with whole numbers. To hold a number is to put it into a word. -/
inductive Calculation where
  | hold (n : Int)
  | add (a b : Int)
  | sub (a b : Int)
  | mul (a b : Int)
  | div (a b : Int)
  deriving Repr, DecidableEq

namespace Calculation

/-- The words that a calculation starts from. -/
def operands : Calculation → List Int
  | hold _ => []
  | add a b => [a, b]
  | sub a b => [a, b]
  | mul a b => [a, b]
  | div a b => [a, b]

/-- The exact result of a calculation. A quotient has no fraction, and zero divides nothing. -/
def result? : Calculation → Option Int
  | hold n => some n
  | add a b => some (a + b)
  | sub a b => some (a - b)
  | mul a b => some (a * b)
  | div a b => if b = 0 then none else some (a.tdiv b)

/-- Whether a calculation has a result that a word holds. -/
def Fits (c : Calculation) : Prop :=
  ∃ n, c.result? = some n ∧ FitsWord n

instance : DecidablePred Fits :=
  fun c => inferInstanceAs (Decidable (∃ n ∈ c.result?, FitsWord n))

/-- Whether a calculation with words stops a program. -/
def Stops (c : Calculation) : Prop :=
  (∀ n ∈ c.operands, FitsWord n) ∧ ¬c.Fits

instance : DecidablePred Stops :=
  fun _ => inferInstanceAs (Decidable (_ ∧ _))

/-- What a program says when a calculation stops it. -/
def message : Calculation → String
  | hold _ => "capacity overflow"
  | add _ _ => "attempt to add with overflow"
  | sub _ _ => "attempt to subtract with overflow"
  | mul _ _ => "attempt to multiply with overflow"
  | div _ b => if b = 0 then "attempt to divide by zero" else "attempt to divide with overflow"

end Calculation
end Montage
