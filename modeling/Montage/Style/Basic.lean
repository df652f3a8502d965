import Montage.Color.Basic
import Montage.Measure.Span
import Montage.Style.Edges

/-!
# Styles

Everything that is known about how a node is shown: when, where, how loud, and in which font.

**Input.** Values of the style language.

**Algorithm.** A record with one field a property, and the facts of the media behind the node.

**Results.** The extent of a node in time and space, with its paddings and margins.
-/

namespace Montage

/-- Facts about the media behind a leaf. -/
structure SourceFacts (τ π : Type) where
  duration : Option τ
  width : Option π
  height : Option π
  hasAudio : Bool
  audioSystem : Option AudioSystem
  deriving BEq

namespace SourceFacts

/-- Nothing is known. -/
def unknown {τ π : Type} : SourceFacts τ π :=
  ⟨none, none, none, false, none⟩

end SourceFacts

/-- The style of a node. -/
structure Style (τ π : Type) where
  objectLength : Span τ
  timeMarginStart : Span τ
  timeMarginEnd : Span τ
  timePaddingStart : Span τ
  timePaddingEnd : Span τ
  order : Order
  width : Length π
  height : Length π
  layerMode : LayerMode
  direction : Direction
  margin : Edges π
  padding : Edges π
  backgroundColor : Option Color
  audioVolume : Float
  audioSystem : Option AudioSystem
  fontFamily : Option String
  fontSize : Option (Length π)
  fontColor : Option Color
  fontBorderColor : Option Color
  fontBorderWidth : Option π
  fontWeight : Option FontWeight
  fontStyle : Option FontStyle
  source : SourceFacts τ π
  deriving BEq

namespace Style

variable {τ π : Type} [Timescale τ] [PixelCount π]

/-- The style of a node about which nothing is declared. -/
def initial : Style τ π where
  objectLength := .fit
  timeMarginStart := .zero
  timeMarginEnd := .zero
  timePaddingStart := .zero
  timePaddingEnd := .zero
  order := .sequence
  width := .auto
  height := .auto
  layerMode := .multi
  direction := .row
  margin := .zero
  padding := .zero
  backgroundColor := none
  audioVolume := 100.0
  audioSystem := none
  fontFamily := none
  fontSize := none
  fontColor := none
  fontBorderColor := none
  fontBorderWidth := none
  fontWeight := none
  fontStyle := none
  source := .unknown

/-- The pixels of a style, in the order in which a program finds them. -/
def counts (s : Style τ π) : List π :=
  s.source.width.toList ++ s.source.height.toList
    ++ ([s.width, s.height] ++ s.margin.toList ++ s.padding.toList).filterMap Length.pixels?
    ++ (s.fontSize.bind Length.pixels?).toList ++ s.fontBorderWidth.toList

/-- The calculation that stops a program while it finds a style. -/
def mishap? (s : Style τ π) : Option Calculation :=
  PixelCount.firstMishap? s.counts

section

variable {s : Style τ π} (h : s.mishap? = none)
include h
omit [Timescale τ]

theorem isFound_of_mem {n : π} (hn : n ∈ s.counts) : PixelCount.IsFound n :=
  PixelCount.firstMishap?_eq_none.1 h n hn

/-- The pixels of the sides and of the edges of a style are found. -/
theorem isFound_side {l : Length π}
    (hl : l ∈ [s.width, s.height] ++ s.margin.toList ++ s.padding.toList) {n : π}
    (hn : l.pixels? = some n) : PixelCount.IsFound n := by
  refine isFound_of_mem h ?_
  simp only [counts, List.mem_append]
  exact Or.inl (Or.inl (Or.inr (List.mem_filterMap.2 ⟨l, by simpa using hl, hn⟩)))

/-- What a side or an edge of a style is taken for is found. -/
theorem isFound_pixelsOr (hzero : PixelCount.IsFound (0 : π)) {l : Length π}
    (hl : l ∈ [s.width, s.height] ++ s.margin.toList ++ s.padding.toList) :
    PixelCount.IsFound (l.pixelsOr 0) := by
  cases hn : l.pixels? with
  | none => simpa [Length.pixelsOr, hn] using hzero
  | some n => simpa [Length.pixelsOr, hn] using isFound_side h hl hn

end

/-- The object with its paddings in time. -/
def paddedLength (s : Style τ π) : Span τ :=
  s.objectLength + s.timePaddingStart + s.timePaddingEnd

/-- The object with its paddings and margins in time. -/
def footprintLength (s : Style τ π) : Span τ :=
  s.timeMarginStart + s.paddedLength + s.timeMarginEnd

/-- The width with its paddings. -/
def paddedWidth (s : Style τ π) : Length π :=
  s.width + s.padding.left + s.padding.right

/-- The height with its paddings. -/
def paddedHeight (s : Style τ π) : Length π :=
  s.height + s.padding.top + s.padding.bottom

/-- The size along an axis. -/
def extent (s : Style τ π) : Axis → Length π
  | .horizontal => s.width
  | .vertical => s.height

/-- Sets the size along an axis. -/
def setExtent (s : Style τ π) : Axis → Length π → Style τ π
  | .horizontal, l => { s with width := l }
  | .vertical, l => { s with height := l }

/-- The axis along which children stand end to end, if they do. -/
def flowAxis? (s : Style τ π) : Option Axis :=
  if s.order = .parallel ∧ s.layerMode = .single then some s.direction.axis else none

/-- Whether a declared side differs from the natural side. An open side never does. -/
def sideDiffers (declared : Length π) (natural : Option π) : Bool :=
  match declared.pixels? with
  | some n => decide (natural ≠ some n)
  | none => false

/-- Whether the natural box has to be resized to the declared box. -/
def needsResize (s : Style τ π) : Bool :=
  sideDiffers s.width s.source.width || sideDiffers s.height s.source.height

end Style
end Montage
