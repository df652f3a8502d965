import Montage.Measure.Length
import Montage.Style.Keyword

/-!
# Edges of a box

Margins and paddings: one length for each of the four sides.

**Input.** One to four lengths, from the top clockwise.

**Algorithm.** A missing length is that of the opposite side, or of all sides. Along an axis a
reversed flow meets the edges in reversed order.

**Results.** Lengths that are not resolved count as zero pixels.
-/

namespace Montage

/-- Lengths of the four sides of a box. -/
structure Edges (π : Type) where
  top : Length π
  right : Length π
  bottom : Length π
  left : Length π
  deriving BEq

namespace Edges

variable {π : Type}

/-- The same length on every side. -/
def uniform (l : Length π) : Edges π :=
  ⟨l, l, l, l⟩

/-- One to four lengths as the sides of a box. -/
def ofList? : List (Length π) → Option (Edges π)
  | [all] => some (uniform all)
  | [vertical, horizontal] => some ⟨vertical, horizontal, vertical, horizontal⟩
  | [top, horizontal, bottom] => some ⟨top, horizontal, bottom, horizontal⟩
  | [top, right, bottom, left] => some ⟨top, right, bottom, left⟩
  | _ => none

/-- Applies a function to every side. -/
def map (f : Length π → Length π) (e : Edges π) : Edges π :=
  ⟨f e.top, f e.right, f e.bottom, f e.left⟩

/-- The sides in order. -/
def toList (e : Edges π) : List (Length π) :=
  [e.top, e.right, e.bottom, e.left]

variable [PixelCount π]

/-- No edges. -/
def zero : Edges π :=
  uniform .zero

/-- The pixels of the left and the right side together. -/
def horizontalPixels (e : Edges π) : π :=
  e.left.pixelsOr 0 + e.right.pixelsOr 0

/-- The pixels of the upper and the lower side together. -/
def verticalPixels (e : Edges π) : π :=
  e.top.pixelsOr 0 + e.bottom.pixelsOr 0

/-- Whether no side has any pixels. -/
def isZero (e : Edges π) : Bool :=
  e.toList.all fun l => decide (l.pixelsOr 0 = 0)

/-- The pixels of the edges that a flow along the axis meets first and last. -/
def along (e : Edges π) (axis : Axis) (reverse : Bool) : π × π :=
  let (start, stop) := match axis with
    | .horizontal => (e.left.pixelsOr 0, e.right.pixelsOr 0)
    | .vertical => (e.top.pixelsOr 0, e.bottom.pixelsOr 0)
  if reverse then (stop, start) else (start, stop)

theorem along_reverse (e : Edges π) (axis : Axis) (reverse : Bool) :
    e.along axis (!reverse) = (e.along axis reverse).swap := by
  cases axis <;> cases reverse <;> rfl

end Edges
end Montage
