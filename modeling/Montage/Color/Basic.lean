import Montage.Text.Split

/-!
# Colors

A color is four channels of eight bits: red, green, blue and opacity.

**Input.** Channel values.

**Algorithm.** Channels are written as pairs of hexadecimal digits.

**Results.** Two texts of a color: `text` for reports and `code` for filters.
-/

namespace Montage

/-- A color with an opacity; an opacity of 255 is opaque. -/
structure Color where
  red : UInt8
  green : UInt8
  blue : UInt8
  alpha : UInt8
  deriving Repr, DecidableEq

namespace Color

/-- No color at all. -/
def transparent : Color :=
  ⟨0, 0, 0, 0⟩

/-- Opaque white. -/
def white : Color :=
  ⟨255, 255, 255, 255⟩

/-- Opaque black. -/
def black : Color :=
  ⟨0, 0, 0, 255⟩

/-- Two hexadecimal digits in lower case. -/
def hexPair (n : UInt8) : List Char :=
  [Nat.digitChar (n.toNat / 16), Nat.digitChar (n.toNat % 16)]

/-- The channels in order, two digits each. -/
def hexDigits (c : Color) : List Char :=
  hexPair c.red ++ hexPair c.green ++ hexPair c.blue ++ hexPair c.alpha

/-- The form `#rrggbbaa`. -/
def text (c : Color) : String :=
  String.ofList ('#' :: c.hexDigits)

/-- The form in which filters take colors, `0xRRGGBBAA`. -/
def code (c : Color) : String :=
  String.ofList ('0' :: 'x' :: c.hexDigits.map Char.toUpper)

/-- The color, or transparent where none is set. -/
def orTransparent (c : Option Color) : Color :=
  c.getD transparent

end Color
end Montage
