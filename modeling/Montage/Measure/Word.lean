import Montage.Measure.PixelCount

/-!
# Words

Words of 64 bits, for programs that stop where a calculation overflows.

**Input.** Calculations with words.

**Algorithm.** A program that has stopped has no number any more, but what is written for all counts
goes on to the end. So a word carries the calculation that has stopped the program on its way to the
word, and whoever asks for it finds it there. Beside it stands the exact number, which is a word as
long as the program has not stopped.

**Results.** Words are pixel counts.
-/

namespace Montage

/-- A number on the way of a program that calculates with words, and the calculation that has stopped
the program before, if one has. -/
structure Word where
  value : Int
  mishap? : Option Calculation
  fits : mishap? = none → FitsWord value
  stops : ∀ c, mishap? = some c → c.Stops
  deriving DecidableEq

namespace Word

/-- The result of a calculation with words, which stops the program if it does not fit. -/
def calculate (ws : List Word) (c : Calculation) (h : c.operands = ws.map value) : Word where
  value := c.result?.getD 0
  mishap? := (ws.findSome? mishap?).or (if c.Fits then none else some c)
  fits hnone := by
    obtain ⟨-, hc⟩ := Option.or_eq_none_iff.1 hnone
    split at hc
    · next hfits =>
        obtain ⟨n, hn, hword⟩ := hfits
        rw [hn]
        exact hword
    · cases hc
  stops d hd := by
    rcases Option.or_eq_some_iff.1 hd with hfirst | ⟨hnone, hc⟩
    · obtain ⟨w, -, hw⟩ := List.exists_of_findSome?_eq_some hfirst
      exact w.stops d hw
    · split at hc
      · cases hc
      · next hfits =>
          cases hc
          refine ⟨fun n hn => ?_, hfits⟩
          rw [h] at hn
          obtain ⟨w, hmem, rfl⟩ := List.mem_map.1 hn
          exact w.fits (List.findSome?_eq_none_iff.1 hnone w hmem)

/-- One of two words, both of which the program has found. -/
def oneOf (a b : Word) (first : Bool) : Word where
  value := if first then a.value else b.value
  mishap? := [a, b].findSome? mishap?
  fits hnone := by
    have hall := List.findSome?_eq_none_iff.1 hnone
    split
    · exact a.fits (hall a (by simp))
    · exact b.fits (hall b (by simp))
  stops d hd := by
    obtain ⟨w, -, hw⟩ := List.exists_of_findSome?_eq_some hd
    exact w.stops d hw

/-- A whole number as a word. -/
def ofInt (n : Int) : Word :=
  calculate [] (.hold n) rfl

instance : PixelCount Word where
  zero := ofInt 0
  add a b := calculate [a, b] (.add a.value b.value) rfl
  sub a b := calculate [a, b] (.sub a.value b.value) rfl
  mul a b := calculate [a, b] (.mul a.value b.value) rfl
  lt a b := a.value < b.value
  le a b := a.value ≤ b.value
  max a b := oneOf a b (decide (b.value ≤ a.value))
  min a b := oneOf a b (decide (a.value ≤ b.value))
  eqDecidable := inferInstance
  ltDecidable a b := inferInstanceAs (Decidable (a.value < b.value))
  leDecidable a b := inferInstanceAs (Decidable (a.value ≤ b.value))
  quotient a b := calculate [a, b] (.div a.value b.value) rfl
  ofInt := ofInt
  toInt := value
  mishap? := mishap?

end Word
end Montage
