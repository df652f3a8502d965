import Montage.Decimal.Shortest
import Montage.Measure.PixelCount
import Montage.Measure.Resolution

/-!
# Lengths in space

A length is a number of pixels, or a share of the parent box or of the output frame, or left open.

**Input.** The text of a declared length.

**Algorithm.** The unit is cut off the end and the number before it is read. Shares are resolved
against a parent, a natural size and the output frame.

**Results.** Arithmetic on anything but pixels gives `auto`, so an unknown length stays unknown.
-/

namespace Montage

/-- A length in space. -/
inductive Length (π : Type) where
  | auto
  | pixel (count : π)
  | percent (share : Float)
  | ofWidth (share : Float)
  | ofHeight (share : Float)
  | ofShortSide (share : Float)
  | ofLongSide (share : Float)
  deriving BEq

namespace Length

variable {π : Type}

/-- Whether the length is left open. -/
def isAuto : Length π → Bool
  | auto => true
  | _ => false

/-- The pixels of a concrete length. -/
def pixels? : Length π → Option π
  | pixel n => some n
  | _ => none

/-- The pixels of a concrete length, or the given count. -/
def pixelsOr (l : Length π) (n : π) : π :=
  l.pixels?.getD n

@[simp] theorem pixels?_pixel (n : π) : (pixel n).pixels? = some n := rfl

theorem pixels?_eq_some {l : Length π} {n : π} : l.pixels? = some n ↔ l = pixel n := by
  cases l <;> simp [pixels?]

@[simp] theorem pixelsOr_pixel (n m : π) : (pixel n).pixelsOr m = n := rfl

/-- The number in front of a unit: nonempty, without blanks, and a real number. -/
def number? (cs : List Char) : Option Float :=
  if cs.isEmpty || cs.any Text.isBlank then
    none
  else
    (Decimal.Literal.parse? cs).bind Timescale.ofLiteral?

variable [PixelCount π]

/-- No pixels. -/
def zero : Length π :=
  pixel 0

/-- The sum of two concrete lengths. -/
def add : Length π → Length π → Length π
  | pixel a, pixel b => pixel (a + b)
  | _, _ => auto

/-- The greater of two concrete lengths. -/
def larger : Length π → Length π → Length π
  | pixel a, pixel b => pixel (max a b)
  | _, _ => auto

/-- The lesser of two concrete lengths. -/
def smaller : Length π → Length π → Length π
  | pixel a, pixel b => pixel (min a b)
  | _, _ => auto

instance : Add (Length π) := ⟨add⟩

@[simp] theorem pixel_add_pixel (a b : π) : (pixel a + pixel b : Length π) = pixel (a + b) := rfl

/-- The given share of a base, in hundredths, to the nearest pixel. -/
def shareOf (base : Float) (share : Float) : Length π :=
  pixel (PixelCount.nearest (Decimal.Exact.ofFloat (base * share / 100.0)))

/-- Resolves a length. A share of the parent needs the parent's pixels; without them it is the
natural size, and without either it stays open. -/
def resolve (parent natural : Option π) (frame : Resolution) : Length π → Length π
  | auto => auto
  | pixel n => pixel n
  | percent share =>
      match parent, natural with
      | some p, _ => shareOf (Float.ofInt (PixelCount.toInt p)) share
      | none, some n => pixel n
      | none, none => auto
  | ofWidth share => shareOf (Float.ofNat frame.width) share
  | ofHeight share => shareOf (Float.ofNat frame.height) share
  | ofShortSide share => shareOf (Float.ofNat frame.shortSide) share
  | ofLongSide share => shareOf (Float.ofNat frame.longSide) share

/-- The units, in the order in which they are looked for at the end of a text. -/
def units : List (String × (Float → Length π)) :=
  [("rmin", ofShortSide), ("rmax", ofLongSide), ("rw", ofWidth), ("rh", ofHeight),
    ("px", fun x => pixel (PixelCount.nearest (Decimal.Exact.ofFloat x))), ("%", percent)]

/-- Reads a number and a unit, or `auto` in any letter case. -/
def parse (s : String) : Except ValueError (Length π) :=
  let cs := Text.trim s.toList
  if Text.lower cs = "auto".toList then
    .ok auto
  else
    let found := units.findSome? fun (unit, make) =>
      (Text.stripEnd? unit.toList cs).map fun n => (number? n).map make
    match found with
    | some (some l) => .ok l
    | _ => .error (.length s)

/-- The form that `parse` reads. -/
def text : Length π → String
  | auto => "auto"
  | pixel n => PixelCount.text n ++ "px"
  | percent x => Decimal.plainText x ++ "%"
  | ofWidth x => Decimal.plainText x ++ "rw"
  | ofHeight x => Decimal.plainText x ++ "rh"
  | ofShortSide x => Decimal.plainText x ++ "rmin"
  | ofLongSide x => Decimal.plainText x ++ "rmax"

end Length
end Montage
