import Montage.Text.Split
import Montage.ValueError

/-!
# Keywords of the style language

The properties whose values come from a short list of words.

**Input.** The text of a declared value.

**Algorithm.** Blanks around the word and its letter case do not count; the word is looked up in the
list of its property.

**Results.** Every keyword is read from its own name.
-/

namespace Montage

/-- Looks a word up in the list of a property. -/
def keyword {α : Type} (property : String) (words : List (String × α)) (s : String) :
    Except ValueError α :=
  match words.lookup (String.ofList (Text.lower (Text.trim s.toList))) with
  | some a => .ok a
  | none => .error (.property property s)

/-- Whether children follow each other or run together. -/
inductive Order where
  | sequence
  | parallel
  deriving Repr, DecidableEq

/-- Whether children that run together share one layer, side by side, or have layers of
their own. -/
inductive LayerMode where
  | single
  | multi
  deriving Repr, DecidableEq

/-- The direction in which the children of one layer flow. -/
inductive Direction where
  | row
  | column
  | rowReverse
  | columnReverse
  deriving Repr, DecidableEq

/-- One audio channel or two. -/
inductive AudioSystem where
  | monaural
  | stereo
  deriving Repr, DecidableEq

/-- The weight of a font. -/
inductive FontWeight where
  | normal
  | bold
  deriving Repr, DecidableEq

/-- The slant of a font. -/
inductive FontStyle where
  | normal
  | italic
  deriving Repr, DecidableEq

/-- The two axes of a box. -/
inductive Axis where
  | horizontal
  | vertical
  deriving Repr, DecidableEq

namespace Order

/-- The word for an order. -/
def name : Order → String
  | sequence => "sequence"
  | parallel => "parallel"

/-- Reads an order. -/
def parse : String → Except ValueError Order :=
  keyword "order" ([sequence, parallel].map fun o => (o.name, o))

end Order

namespace LayerMode

/-- The word for a layer mode. -/
def name : LayerMode → String
  | single => "single"
  | multi => "multi"

/-- Reads a layer mode. -/
def parse : String → Except ValueError LayerMode :=
  keyword "layer-mode" ([single, multi].map fun m => (m.name, m))

end LayerMode

namespace Axis

/-- The other axis. -/
def cross : Axis → Axis
  | horizontal => vertical
  | vertical => horizontal

/-- The word for an axis. -/
def name : Axis → String
  | horizontal => "Horizontal"
  | vertical => "Vertical"

end Axis

namespace Direction

/-- The word for a direction. -/
def name : Direction → String
  | row => "row"
  | column => "column"
  | rowReverse => "row-reverse"
  | columnReverse => "column-reverse"

/-- Reads a direction. -/
def parse : String → Except ValueError Direction :=
  keyword "direction" ([row, column, rowReverse, columnReverse].map fun d => (d.name, d))

/-- Whether children flow along the horizontal axis. -/
def isRow : Direction → Bool
  | row => true
  | rowReverse => true
  | _ => false

/-- The axis along which children flow. -/
def axis (d : Direction) : Axis :=
  if d.isRow then .horizontal else .vertical

/-- Whether children flow from the far edge back. -/
def isReverse : Direction → Bool
  | rowReverse => true
  | columnReverse => true
  | _ => false

end Direction

namespace AudioSystem

/-- The word for a number of channels. -/
def name : AudioSystem → String
  | monaural => "monaural"
  | stereo => "stereo"

/-- Reads a number of channels. -/
def parse : String → Except ValueError AudioSystem :=
  keyword "audio-system" ([monaural, stereo].map fun a => (a.name, a))

/-- The system of an audio stream: by the name of its channel layout, else by its channels. -/
def ofChannels? (layout : Option String) (channels : Option Nat) : Option AudioSystem :=
  match layout with
  | some "mono" => some monaural
  | some "monaural" => some monaural
  | some "stereo" => some stereo
  | _ =>
      match channels with
      | some 1 => some monaural
      | some 2 => some stereo
      | _ => none

end AudioSystem

namespace FontWeight

/-- The word for a weight. -/
def name : FontWeight → String
  | normal => "normal"
  | bold => "bold"

/-- Reads a weight. -/
def parse : String → Except ValueError FontWeight :=
  keyword "font-weight" ([normal, bold].map fun w => (w.name, w))

end FontWeight

namespace FontStyle

/-- The word for a slant. -/
def name : FontStyle → String
  | normal => "normal"
  | italic => "italic"

/-- Reads a slant. -/
def parse : String → Except ValueError FontStyle :=
  keyword "font-style" ([normal, italic].map fun s => (s.name, s))

end FontStyle
end Montage
