import Montage.Color.Reader
import Montage.Style.Basic

/-!
# Declarations

A declaration gives a property a value. What it writes into a style is known from its text alone.

**Input.** The name of a property and the text of its value.

**Algorithm.** A table holds the grammar of every property. Reading a declaration gives a `Setting`,
which says what to write; applying the setting writes it.

**Results.** A declaration that fails its grammar leaves the style as it was (`Style.declare`).
-/

namespace Montage

/-- A property and its value, as written. -/
structure Declaration where
  property : String
  value : String
  deriving Repr, DecidableEq

/-- Why a declaration says nothing. -/
inductive DeclarationError where
  | unsupported (property : String)
  | value (error : ValueError)
  deriving Repr, DecidableEq

namespace DeclarationError

/-- The wording of an error. -/
def message : DeclarationError → String
  | unsupported property => s!"unsupported property `{property}`"
  | value error => error.message

end DeclarationError

/-- The four sides of a box. -/
inductive Side where
  | top
  | right
  | bottom
  | left
  deriving Repr, DecidableEq

namespace Edges

variable {π : Type}

/-- Replaces one side. -/
def set (e : Edges π) (l : Length π) : Side → Edges π
  | .top => { e with top := l }
  | .right => { e with right := l }
  | .bottom => { e with bottom := l }
  | .left => { e with left := l }

end Edges

/-- What a declaration writes. -/
inductive Setting (τ π : Type) where
  | objectLength (s : Span τ)
  | timeMargin (start stop : Span τ)
  | timeMarginStart (s : Span τ)
  | timeMarginEnd (s : Span τ)
  | timePadding (start stop : Span τ)
  | timePaddingStart (s : Span τ)
  | timePaddingEnd (s : Span τ)
  | order (o : Order)
  | layerMode (m : LayerMode)
  | direction (d : Direction)
  | width (l : Length π)
  | height (l : Length π)
  | margin (e : Edges π)
  | marginSide (side : Side) (l : Length π)
  | padding (e : Edges π)
  | paddingSide (side : Side) (l : Length π)
  | backgroundColor (c : Color)
  | audioVolume (percent : Float)
  | audioSystem (a : AudioSystem)
  | fontFamily (name : String)
  | fontSize (l : Length π)
  | fontColor (c : Color)
  | fontBorder (c : Color) (width : π)
  | fontBorderColor (c : Color)
  | fontBorderWidth (width : π)
  | fontWeight (w : FontWeight)
  | fontStyle (s : FontStyle)

namespace Setting

variable {τ π : Type}

/-- Writes the setting into a style. -/
def apply (s : Style τ π) : Setting τ π → Style τ π
  | objectLength t => { s with objectLength := t }
  | timeMargin start stop => { s with timeMarginStart := start, timeMarginEnd := stop }
  | timeMarginStart t => { s with timeMarginStart := t }
  | timeMarginEnd t => { s with timeMarginEnd := t }
  | timePadding start stop => { s with timePaddingStart := start, timePaddingEnd := stop }
  | timePaddingStart t => { s with timePaddingStart := t }
  | timePaddingEnd t => { s with timePaddingEnd := t }
  | order o => { s with order := o }
  | layerMode m => { s with layerMode := m }
  | direction d => { s with direction := d }
  | width l => { s with width := l }
  | height l => { s with height := l }
  | margin e => { s with margin := e }
  | marginSide side l => { s with margin := s.margin.set l side }
  | padding e => { s with padding := e }
  | paddingSide side l => { s with padding := s.padding.set l side }
  | backgroundColor c => { s with backgroundColor := some c }
  | audioVolume p => { s with audioVolume := p }
  | audioSystem a => { s with audioSystem := some a }
  | fontFamily name => { s with fontFamily := some name }
  | fontSize l => { s with fontSize := some l }
  | fontColor c => { s with fontColor := some c }
  | fontBorder c w => { s with fontBorderColor := some c, fontBorderWidth := some w }
  | fontBorderColor c => { s with fontBorderColor := some c }
  | fontBorderWidth w => { s with fontBorderWidth := some w }
  | fontWeight w => { s with fontWeight := some w }
  | fontStyle f => { s with fontStyle := some f }

end Setting

/-- The grammar of a property: from its name and value to what it writes. -/
abbrev Grammar (τ π : Type) :=
  String → String → Except ValueError (Setting τ π)

namespace Grammar

variable {τ π α : Type}

/-- A grammar from a reader of its own. -/
def reads (read : String → Except ValueError α) (make : α → Setting τ π) : Grammar τ π :=
  fun _ value => (read value).map make

/-- A grammar whose failures name the property. -/
def expects (read : String → Option α) (make : α → Setting τ π) : Grammar τ π :=
  fun property value =>
    match read value with
    | some a => .ok (make a)
    | none => .error (.property property value)

/-- The words of a value. -/
def parts (value : String) : List String :=
  (Text.words value.toList).map String.ofList

/-- A span for margins and paddings, which neither fit nor follow the media. -/
def margin [Timescale τ] (value : String) : Except ValueError (Span τ) :=
  match Span.parse value with
  | .ok .fit => .error (.span value)
  | .ok .source => .error (.span value)
  | result => result

/-- One span for both ends, or one for each. -/
def marginPair? [Timescale τ] (value : String) : Option (Span τ × Span τ) :=
  match parts value with
  | [both] => (margin both).toOption.map fun t => (t, t)
  | [start, stop] => do
      let start ← (margin start).toOption
      let stop ← (margin stop).toOption
      some (start, stop)
  | _ => none

/-- One to four lengths. -/
def edges? [PixelCount π] (value : String) : Option (Edges π) :=
  ((parts value).mapM fun part => (Length.parse part).toOption).bind Edges.ofList?

/-- A percentage that is not negative. -/
def percentage? (value : String) : Option Float := do
  let digits ← Text.stripEnd? ['%'] value.toList
  let literal ← Decimal.Literal.parse? (Text.trim digits)
  let x : Float ← Timescale.ofLiteral? literal
  if 0.0 ≤ x then some x else none

/-- A length in pixels. -/
def pixels? [PixelCount π] (value : String) : Option π :=
  (Length.parse value).toOption.bind Length.pixels?

/-- A color and a number of pixels, in either order, each without blanks. -/
def colorAndPixels? [PixelCount π] (value : String) : Option (Color × π) :=
  match parts value with
  | [first, second] =>
      match pixels? first with
      | some n => (Color.parse second).toOption.map fun c => (c, n)
      | none => do
          let c ← (Color.parse first).toOption
          let n ← pixels? second
          some (c, n)
  | _ => none

/-- The properties and their grammars. -/
def all [Timescale τ] [PixelCount π] : List (String × Grammar τ π) :=
  [("object-length", reads Span.parse .objectLength),
    ("time-margin", expects marginPair? fun (start, stop) => .timeMargin start stop),
    ("time-margin-start", reads margin .timeMarginStart),
    ("time-margin-end", reads margin .timeMarginEnd),
    ("time-padding", expects marginPair? fun (start, stop) => .timePadding start stop),
    ("time-padding-start", reads margin .timePaddingStart),
    ("time-padding-end", reads margin .timePaddingEnd),
    ("order", reads Order.parse .order),
    ("layer-mode", reads LayerMode.parse .layerMode),
    ("layer", reads LayerMode.parse .layerMode),
    ("direction", reads Direction.parse .direction),
    ("width", reads Length.parse .width),
    ("height", reads Length.parse .height),
    ("margin", expects edges? .margin),
    ("margin-top", reads Length.parse (.marginSide .top)),
    ("margin-right", reads Length.parse (.marginSide .right)),
    ("margin-bottom", reads Length.parse (.marginSide .bottom)),
    ("margin-left", reads Length.parse (.marginSide .left)),
    ("padding", expects edges? .padding),
    ("padding-top", reads Length.parse (.paddingSide .top)),
    ("padding-right", reads Length.parse (.paddingSide .right)),
    ("padding-bottom", reads Length.parse (.paddingSide .bottom)),
    ("padding-left", reads Length.parse (.paddingSide .left)),
    ("background-color", reads Color.parse .backgroundColor),
    ("audio-volume", expects percentage? .audioVolume),
    ("audio-system", reads AudioSystem.parse .audioSystem),
    ("font-color", reads Color.parse .fontColor),
    ("font-border", expects colorAndPixels? fun (c, n) => .fontBorder c n),
    ("font-border-color", reads Color.parse .fontBorderColor),
    ("font-border-width", expects pixels? .fontBorderWidth),
    ("font-family", fun _ value => .ok (.fontFamily value)),
    ("font-size", reads Length.parse .fontSize),
    ("font-weight", reads FontWeight.parse .fontWeight),
    ("font-style", reads FontStyle.parse .fontStyle)]

end Grammar

namespace Declaration

variable {τ π : Type} [Timescale τ] [PixelCount π]

/-- What a declaration writes. Blanks around its value do not count. -/
def setting (d : Declaration) : Except DeclarationError (Setting τ π) :=
  match Grammar.all.lookup d.property with
  | none => .error (.unsupported d.property)
  | some grammar =>
      match grammar d.property (String.ofList (Text.trim d.value.toList)) with
      | .ok setting => .ok setting
      | .error e => .error (.value e)

end Declaration

namespace Style

variable {τ π : Type} [Timescale τ] [PixelCount π]

/-- Applies a declaration; one that says nothing changes nothing. -/
def declare (s : Style τ π) (d : Declaration) : Style τ π :=
  match (d.setting : Except DeclarationError (Setting τ π)) with
  | .ok setting => setting.apply s
  | .error _ => s

end Style
end Montage
