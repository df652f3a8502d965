import Montage.Style.Basic

/-!
# Layout

Where children are placed inside the box of their container.

**Input.** The styles of the container and of a child.

**Algorithm.** On layers of their own children stand at their margins. On a single layer they flow
along the axis of the container, each after the last one and the greater of the two margins between
them; a reversed flow starts at the far edge and walks back.

**Results.** `layeredOffset` and `Flow.place` give the upper left corner of a child's padded box.
-/

namespace Montage

variable {τ π : Type} [PixelCount π]

/-- The place of a child on a layer of its own. -/
def layeredOffset (container child : Style τ π) : π × π :=
  (container.padding.left.pixelsOr 0 + child.margin.left.pixelsOr 0,
    container.padding.top.pixelsOr 0 + child.margin.top.pixelsOr 0)

/-- The state of a flow: where the next child goes, and the margin that is still to be met. -/
structure Flow (π : Type) where
  axis : Axis
  reverse : Bool
  position : π
  pending : π
  crossPadding : π
  deriving Repr, DecidableEq

namespace Flow

/-- The flow of a container before its first child. -/
def start (container : Style τ π) : Flow π :=
  let axis := container.direction.axis
  let reverse := container.direction.isReverse
  let near := (container.padding.along axis false).1
  { axis, reverse
    position := if reverse then near + (container.extent axis).pixelsOr 0 else near
    pending := 0
    crossPadding := (container.padding.along axis.cross false).1 }

/-- A point by its coordinates along the flow and across it. -/
def point (f : Flow π) (main cross : π) : π × π :=
  match f.axis with
  | .horizontal => (main, cross)
  | .vertical => (cross, main)

/-- The place of the next child, and the flow after it. -/
def place (f : Flow π) (child : Style τ π) : (π × π) × Flow π :=
  let (lead, trail) := child.margin.along f.axis f.reverse
  let gap := max lead f.pending
  let (near, far) := child.padding.along f.axis false
  let size := near + (child.extent f.axis).pixelsOr 0 + far
  let cross := f.crossPadding + (child.margin.along f.axis.cross false).1
  if f.reverse then
    let main := f.position - (gap + size)
    (f.point main cross, { f with position := main, pending := trail })
  else
    let main := f.position + gap
    (f.point main cross, { f with position := main + size, pending := trail })

/-- The places of children in order. -/
def placeAll (f : Flow π) : List (Style τ π) → List (π × π)
  | [] => []
  | s :: rest => (f.place s).1 :: (f.place s).2.placeAll rest

end Flow
end Montage
