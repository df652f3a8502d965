import Montage.Json.Value
import Montage.Measure.Length
import Montage.Measure.Span
import Montage.Style.Edges

/-!
# Listed lengths

Lengths in space and in time as data: a record of the unit and, where the unit counts something, the
value.

**Input.** A length, or its record.

**Algorithm.** One unit a constructor. A record may also be an array of the unit and the value.

**Results.** `toJson` writes the record, `ofJson?` reads it.
-/

namespace Montage

namespace Json

/-- A record of a unit and a value. -/
def measured (unit : String) (value : Json) : Json :=
  object [("unit", string unit), ("value", value)]

/-- A record of a unit that counts nothing. -/
def unmeasured (unit : String) : Json :=
  object [("unit", string unit)]

/-- The unit and the value of a record; an array has both. -/
def unitAndValue? (j : Json) : Option (String × Option Json) := do
  match ← j.record? false ["unit", "value"] with
  | [unit, value] => some (← (← unit).caseName?, value)
  | _ => none

/-- What a unit without a value holds: nothing or null. -/
def isNothing : Option Json → Bool
  | none => true
  | some null => true
  | some _ => false

/-- A whole number of pixels, within the bounds of counts. -/
def pixels? (j : Json) : Option Int :=
  j.int?.filter fun n => decide (PixelCount.bounds.1 ≤ n ∧ n ≤ PixelCount.bounds.2)

end Json

namespace Length

variable {π : Type} [PixelCount π]

/-- The units of shares. -/
def shareUnits : List (String × (Float → Length π)) :=
  [("percent", percent), ("resolution_width", ofWidth), ("resolution_height", ofHeight),
    ("resolution_min", ofShortSide), ("resolution_max", ofLongSide)]

/-- The record of a length. -/
def toJson : Length π → Json
  | auto => .unmeasured "auto"
  | pixel n => .measured "pixel" (.ofInt (PixelCount.toInt n))
  | percent x => .measured "percent" (.ofFloat x)
  | ofWidth x => .measured "resolution_width" (.ofFloat x)
  | ofHeight x => .measured "resolution_height" (.ofFloat x)
  | ofShortSide x => .measured "resolution_min" (.ofFloat x)
  | ofLongSide x => .measured "resolution_max" (.ofFloat x)

/-- Reads the record of a length. -/
def ofJson? (j : Json) : Option (Length π) := do
  let (unit, value) ← j.unitAndValue?
  if unit = "auto" then
    if Json.isNothing value then some auto else none
  else if unit = "pixel" then
    (← value).pixels?.map fun n => pixel (PixelCount.ofInt n)
  else
    let make ← shareUnits.lookup unit
    (← value).float?.map make

end Length

namespace Span

/-- The record of a span. -/
def toJson : Span Float → Json
  | fit => .unmeasured "fit"
  | source => .unmeasured "source"
  | seconds t => .measured "seconds" (.ofFloat t)
  | frames n => .measured "frames" (.ofFloat n)
  | percent x => .measured "percent" (.ofFloat x)

/-- The units that count something. -/
def countedUnits : List (String × (Float → Span Float)) :=
  [("seconds", seconds), ("frames", frames), ("percent", percent)]

/-- Reads the record of a span. -/
def ofJson? (j : Json) : Option (Span Float) := do
  let (unit, value) ← j.unitAndValue?
  if unit = "fit" then
    if Json.isNothing value then some fit else none
  else if unit = "source" then
    if Json.isNothing value then some source else none
  else
    let make ← countedUnits.lookup unit
    (← value).float?.map make

end Span

namespace Edges

/-- The record of edges. -/
def toJson {π : Type} [PixelCount π] (e : Edges π) : Json :=
  .object
    [("top", e.top.toJson), ("right", e.right.toJson), ("bottom", e.bottom.toJson),
      ("left", e.left.toJson)]

end Edges
end Montage
