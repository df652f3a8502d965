import Montage.Color.Basic
import Montage.Color.Named
import Montage.Decimal.Exact
import Montage.Decimal.Literal
import Montage.Decimal.Shortest
import Montage.ValueError

/-!
# Reading colors

The written forms of a color: a keyword, hexadecimal digits, or a function of three channels and an
optional opacity.

**Input.** The text of a declared color.

**Algorithm.** An opacity of `rgba` that is a whole number counts in steps of 1/255 and is rewritten
as a fraction first. Then functions are told from digits and keywords by their brackets, their
arguments are read as single-precision numbers, and angles are brought into one turn.

**Results.** `Color.parse` gives the four channels, each rounded to the nearest of 256 steps.
-/

namespace Montage
namespace Color

/-- A channel written with two characters. A sign may stand in place of the first digit. -/
def hexByte? (high low : Char) : Option UInt8 :=
  if high = '+' then
    (Decimal.hexDigit? low).map UInt8.ofNat
  else do
    let h ← Decimal.hexDigit? high
    let l ← Decimal.hexDigit? low
    some (UInt8.ofNat (16 * h + l))

/-- A channel written with one digit, which counts twice. -/
def hexDouble? (c : Char) : Option UInt8 :=
  (Decimal.hexDigit? c).map fun n => UInt8.ofNat (17 * n)

/-- Three or four single digits, or three or four pairs. -/
def ofHex? : List Char → Option Color
  | [r, g, b] => do
      some ⟨← hexDouble? r, ← hexDouble? g, ← hexDouble? b, 255⟩
  | [r, g, b, a] => do
      some ⟨← hexDouble? r, ← hexDouble? g, ← hexDouble? b, ← hexDouble? a⟩
  | [r, r', g, g', b, b'] => do
      some ⟨← hexByte? r r', ← hexByte? g g', ← hexByte? b b', 255⟩
  | [r, r', g, g', b, b', a, a'] => do
      some ⟨← hexByte? r r', ← hexByte? g g', ← hexByte? b b', ← hexByte? a a'⟩
  | _ => none

/-- A single-precision number. -/
def single? (cs : List Char) : Option Float32 :=
  (Decimal.Literal.parse? cs).map Decimal.Literal.toFloat32

/-- A function's argument: a share of one, and whether it was written as a percentage. -/
structure Argument where
  share : Float32
  isPercent : Bool

/-- A percentage, or a bare number on the scale from zero to `full`. -/
def argument? (full : Float32) (cs : List Char) : Option Argument :=
  match (Text.stripEnd? ['%'] cs).bind single? with
  | some x => some ⟨x / 100.0, true⟩
  | none => (single? cs).map fun x => ⟨x / full, false⟩

/-- Between zero and one; what is no number stays so. -/
def clampUnit (x : Float32) : Float32 :=
  if x < 0.0 then 0.0 else if 1.0 < x then 1.0 else x

/-- Three arguments of one kind, cut to the range from zero to one. -/
def threeOf (full : Float32) (a b c : List Char) : Option (Float32 × Float32 × Float32) := do
  let x ← argument? full a
  let y ← argument? full b
  let z ← argument? full c
  if x.isPercent = y.isPercent ∧ y.isPercent = z.isPercent then
    some (clampUnit x.share, clampUnit y.share, clampUnit z.share)
  else
    none

/-- Two arguments of one kind, cut to the range from zero to one. -/
def twoOf (a b : List Char) : Option (Float32 × Float32) := do
  let x ← argument? 1.0 a
  let y ← argument? 1.0 b
  if x.isPercent = y.isPercent then some (clampUnit x.share, clampUnit y.share) else none

/-- The units of an angle and what one of them is in degrees, in the order in which they are
tried; a number without unit is in degrees. -/
def angleUnits : List (String × (Float32 → Float32)) :=
  [("deg", id), ("grad", fun t => t * 360.0 / 400.0), ("rad", fun t => t * 57.29577951308232),
    ("turn", fun t => t * 360.0), ("", id)]

/-- An angle in degrees. -/
def angle? (cs : List Char) : Option Float32 :=
  angleUnits.findSome? fun (unit, scale) =>
    ((Text.stripEnd? unit.toList cs).bind single?).map scale

/-- The remainder of a division by `n` with the sign of the value, without rounding. -/
def remainder (n : Nat) (x : Float32) : Float32 :=
  match Decimal.Exact.ofFloat x.toFloat with
  | .finite negative num den =>
      let size := (Float.ofNat (num % (n * den)) / Float.ofNat den).toFloat32
      if negative then -size else size
  | _ => 0.0 / 0.0

/-- The remainder that is not negative. The divisor is added before the remainder is taken again,
also to a remainder that was positive, and that sum is rounded. -/
def cyclic (n : Nat) (x : Float32) : Float32 :=
  remainder n (remainder n x + (Float.ofNat n).toFloat32)

/-- One channel from the two extremes and a hue in sixths of a turn. -/
def hueChannel (n1 n2 h : Float32) : Float32 :=
  let h := cyclic 6 h
  if h < 1.0 then n1 + (n2 - n1) * h
  else if h < 3.0 then n2
  else if h < 4.0 then n1 + (n2 - n1) * (4.0 - h)
  else n1

/-- Red, green and blue. -/
abbrev Channels := Float32 × Float32 × Float32

/-- Channels from hue, saturation and lightness. -/
def ofHsl (h s l : Float32) : Channels :=
  if s == 0.0 then
    (l, l, l)
  else
    let n2 := if l < 0.5 then l * (1.0 + s) else l + s - l * s
    let n1 := 2.0 * l - n2
    let h := h / 60.0
    (hueChannel n1 n2 (h + 2.0), hueChannel n1 n2 h, hueChannel n1 n2 (h - 2.0))

/-- Channels from hue, whiteness and blackness. -/
def ofHwb (h w b : Float32) : Channels :=
  if 1.0 ≤ w + b then
    let l := w / (w + b)
    (l, l, l)
  else
    let (r, g, bl) := ofHsl h 1.0 0.5
    let mix (x : Float32) := x * (1.0 - w - b) + w
    (mix r, mix g, mix bl)

/-- Channels from hue, saturation and value. -/
def ofHsv (h s v : Float32) : Channels :=
  let l := (2.0 - s) * v / 2.0
  let s :=
    if l == 0.0 then s
    else if l == 1.0 then 0.0
    else if l < 0.5 then s * v / (l * 2.0)
    else s * v / (2.0 - l * 2.0)
  ofHsl h s l

/-- The nearest of the 256 steps from zero to one. -/
def step (x : Float32) : UInt8 :=
  (x * 255.0 + 0.5).toUInt8

/-- A function from hue, brought into one turn, and two shares. -/
def hueFunction (make : Float32 → Float32 → Float32 → Channels) (a b c : List Char) :
    Option Channels := do
  let h ← angle? a
  let (x, y) ← twoOf b c
  some (make (cyclic 360 h) x y)

/-- The channels of a function by its name. -/
def channels? (name : String) (a b c : List Char) : Option Channels :=
  match name with
  | "rgb" | "rgba" => threeOf 255.0 a b c
  | "hsl" | "hsla" => hueFunction ofHsl a b c
  | "hwb" | "hwba" => hueFunction ofHwb a b c
  | "hsv" | "hsva" => hueFunction ofHsv a b c
  | _ => none

/-- The pieces of an argument list, between commas, slashes and blanks. -/
def arguments (cs : List Char) : List (List Char) :=
  Text.fields (fun c => c == ',' || c == '/' || Text.isAsciiBlank c) cs

/-- A function of three arguments and an optional opacity. -/
def ofFunction? (name args : List Char) : Option Color := do
  let (a, b, c, opacity) ← match arguments args with
    | [a, b, c] => some (a, b, c, (1.0 : Float32))
    | [a, b, c, o] => (argument? 1.0 o).map fun x => (a, b, c, clampUnit x.share)
    | _ => none
  let (r, g, bl) ← channels? (String.ofList (Text.lower (Text.trimEnd name))) a b c
  some ⟨step r, step g, step bl, step opacity⟩

/-- A keyword, hexadecimal digits after an optional `#`, or a function. -/
def ofText? (cs : List Char) : Option Color :=
  let cs := Text.trim cs
  let word := String.ofList (Text.lower cs)
  let plain := (ofHex? cs).or <| (named? word).map fun n =>
    ⟨UInt8.ofNat (n >>> 16), UInt8.ofNat (n >>> 8), UInt8.ofNat n, 255⟩
  if word = "transparent" then
    some transparent
  else
    match Text.stripStart? ['#'] cs with
    | some digits => ofHex? digits
    | none =>
        match (Text.stripEnd? [')'] cs).bind (Text.splitFirst? '(') with
        | some (name, args) => ofFunction? name args
        | none => plain

/-- A whole-number opacity of `rgba`, counted in steps of 1/255, rewritten as a fraction. The
opacity is what follows the last comma. Other texts stay as they are; a number above 255 fails. -/
def fractionalAlpha? (cs : List Char) : Option (List Char) :=
  match (Text.stripStart? "rgba(".toList cs).bind (Text.stripEnd? [')']) with
  | none => some cs
  | some args =>
      match Text.splitLast? ',' args with
      | none => some cs
      | some (channels, alpha) =>
          match Decimal.parseNat? (Text.trim alpha) with
          | none => some cs
          | some n =>
              if n ≤ 255 then
                let fraction := Decimal.plainText (Float.ofNat n / 255.0)
                some ("rgba(".toList ++ channels ++ ", ".toList ++ fraction.toList ++ [')'])
              else
                none

/-- Reads any written form of a color. -/
def parse (s : String) : Except ValueError Color :=
  let cs := Text.lower (Text.trim s.toList)
  match fractionalAlpha? cs with
  | none => .error (.color (String.ofList cs))
  | some text =>
      match ofText? text with
      | some c => .ok c
      | none => .error (.color s)

end Color
end Montage
