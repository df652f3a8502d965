import Montage.Scene.Basic

/-!
# The extent of containers

How long a container lasts and how large its box is, where the style leaves it open.

**Input.** The styles of the children.

**Algorithm.** A sequence lasts as long as its children one after the other, a parallel as long as
the longest of them. Along the flow of a single layer children stand side by side, otherwise they
lie on top of each other. Adjacent margins collapse: only the greater of two counts.

**Results.** Only open lengths and sizes are filled in (`Scene.settle`). A leaf keeps the shape of
its media (`Style.fitSource`).
-/

namespace Montage

variable {τ π : Type}

/-- The length of children one after the other, after a margin that is still to be met and a total
so far. One open child leaves all open. -/
def sequenceFrom [Timescale τ] (total pending : τ) : List (Style τ π) → Span τ
  | [] => .seconds (total + pending)
  | s :: rest =>
      match s.objectLength.seconds? with
      | none => .fit
      | some length =>
          let step :=
            Timescale.longer s.timeMarginStart.secondsOrZero pending
              + s.timePaddingStart.secondsOrZero + length + s.timePaddingEnd.secondsOrZero
          sequenceFrom (total + step) s.timeMarginEnd.secondsOrZero rest

/-- The length of a sequence; it is open without children. -/
def sequenceLength [Timescale τ] (children : List (Style τ π)) : Span τ :=
  if children.isEmpty then .fit else sequenceFrom 0 0 children

/-- The time a child takes with its paddings and margins; an open length counts as none. -/
def footprintTime [Timescale τ] (s : Style τ π) : τ :=
  s.timeMarginStart.secondsOrZero + s.timePaddingStart.secondsOrZero
    + s.objectLength.secondsOrZero + s.timePaddingEnd.secondsOrZero
    + s.timeMarginEnd.secondsOrZero

/-- The length of a parallel; it is open if all children are. -/
def parallelLength [Timescale τ] (children : List (Style τ π)) : Span τ :=
  if children.all fun s => s.objectLength.seconds?.isNone then
    .fit
  else
    .seconds ((children.map footprintTime).foldl Timescale.longer 0)

/-- The size of a child along an axis with its paddings; an open size counts as none. -/
def paddedExtent [PixelCount π] (axis : Axis) (s : Style τ π) : π :=
  let (lead, trail) := s.padding.along axis false
  lead + (s.extent axis).pixelsOr 0 + trail

/-- The size of children side by side, after a margin that is still to be met and a total so
far. -/
def catenateFrom [PixelCount π] (axis : Axis) (reverse : Bool) (total pending : π) :
    List (Style τ π) → π
  | [] => total + pending
  | s :: rest =>
      let (lead, trail) := s.margin.along axis reverse
      catenateFrom axis reverse (total + (max lead pending + paddedExtent axis s)) trail rest

/-- The size of children side by side. -/
def catenate [PixelCount π] (axis : Axis) (reverse : Bool) (children : List (Style τ π)) :
    Length π :=
  .pixel (catenateFrom axis reverse 0 0 children)

/-- The size of a child along an axis with its paddings and margins. -/
def footprintExtent [PixelCount π] (axis : Axis) (s : Style τ π) : π :=
  let (lead, trail) := s.margin.along axis false
  lead + paddedExtent axis s + trail

/-- The greatest of some counts, zero if there are none. -/
def greatest [PixelCount π] : List π → π
  | [] => 0
  | n :: ns => ns.foldl max n

/-- The size of children on top of each other. -/
def pile [PixelCount π] (axis : Axis) (children : List (Style τ π)) : Length π :=
  .pixel (greatest (children.map (footprintExtent axis)))

namespace Style

variable [Timescale τ] [PixelCount π]

/-- Fills in an open length from the children. -/
def settleLength (s : Style τ π) (children : List (Style τ π)) : Style τ π :=
  if s.objectLength.isFit then
    let length := match s.order with
      | .sequence => sequenceLength children
      | .parallel => parallelLength children
    { s with objectLength := length }
  else
    s

/-- Fills in an open size along an axis from the children that can be seen. -/
def settleExtent (s : Style τ π) (visible : List (Style τ π)) (axis : Axis) : Style τ π :=
  if (s.extent axis).isAuto then
    let size :=
      if s.flowAxis? = some axis then
        catenate axis s.direction.isReverse visible
      else
        pile axis visible
    s.setExtent axis size
  else
    s

/-- Fills in what the style of a container leaves open. -/
def settle (s : Style τ π) (children visible : List (Style τ π)) : Style τ π :=
  let s := s.settleLength children
  if visible.isEmpty then
    s
  else
    (s.settleExtent visible .horizontal).settleExtent visible .vertical

/-- The quotient of whole numbers to the nearest, for a positive divisor. -/
def nearestQuotient (num den : π) : π :=
  PixelCount.quotient (num + PixelCount.quotient den (PixelCount.ofInt 2)) den

/-- Fills in an open side of a leaf: with the natural side, or in the shape of the media if the other
side is declared. -/
def fitSource (s : Style τ π) : Style τ π :=
  match s.source.width, s.source.height with
  | some width, some height =>
      let natural :=
        let s := if s.width.isAuto then { s with width := .pixel width } else s
        if s.height.isAuto then { s with height := .pixel height } else s
      match s.width.pixels?, s.height.pixels? with
      | some _, some _ => s
      | some w, none =>
          if 0 < width then { s with height := .pixel (nearestQuotient (w * height) width) }
          else natural
      | none, some h =>
          if 0 < height then { s with width := .pixel (nearestQuotient (h * width) height) }
          else natural
      | none, none => natural
  | _, _ => s

end Style

namespace Scene

variable [Timescale τ] [PixelCount π]

/-- The styles of the nodes that can be seen. -/
def visibleStyles (items : List (Scene τ π)) : List (Style τ π) :=
  (items.filter hasVideo).map style

/-- Fills in what the style of a container leaves open; leaves stay as they are. -/
def settle : Scene τ π → Scene τ π
  | container tag style items =>
      container tag (style.settle (items.map Scene.style) (visibleStyles items)) items
  | scene => scene

end Scene
end Montage
