import Montage.Media.Cache

/-!
# The cascade

How a node comes by its style.

**Input.** The node and its ancestors, the style of its parent, the style sheet, a probe, and the
frame of the document.

**Algorithm.** Fonts and sound are inherited from the parent; then the defaults of the element, the
facts of its media, the declarations of matching rules, those of the node itself, and its own
attributes are applied, each over what came before. At last every unit is resolved against the
parent.

**Results.** In a resolved style margins and paddings are concrete (`Style.resolve`).
-/

namespace Montage

variable {τ π : Type} [Timescale τ] [PixelCount π]

namespace Style

/-- The fonts and the sound of a parent, and nothing else declared. -/
def inherited (parent : Style τ π) : Style τ π :=
  { (initial : Style τ π) with
    audioVolume := parent.audioVolume
    audioSystem := parent.audioSystem
    fontFamily := parent.fontFamily
    fontSize := parent.fontSize
    fontColor := parent.fontColor
    fontBorderColor := parent.fontBorderColor
    fontBorderWidth := parent.fontBorderWidth
    fontWeight := parent.fontWeight
    fontStyle := parent.fontStyle }

/-- The size of a font where none is declared. -/
def defaultFontSize : Length π :=
  .pixel (PixelCount.ofInt 30)

/-- What an element sets before anything is declared. -/
def withDefaults (s : Style τ π) (tag : Tag) : Style τ π :=
  let s := { s with direction := .row }
  match tag with
  | .prl => { s with order := .parallel, layerMode := .multi }
  | .layer => { s with order := .parallel, layerMode := .single }
  | .vid | .aud => { s with order := .sequence, layerMode := .multi, objectLength := .source }
  | .txt =>
      { s with
        order := .sequence
        layerMode := .multi
        fontColor := some (s.fontColor.getD .white)
        fontSize := some (s.fontSize.getD defaultFontSize) }
  | _ => { s with order := .sequence, layerMode := .multi }

/-- Applies declarations in order. -/
def declareAll (s : Style τ π) (ds : List Declaration) : Style τ π :=
  ds.foldl declare s

/-- Applies the attribute that colors a rectangle. A text that is no color is passed over. -/
def withAttributes (s : Style τ π) (node : Node) : Style τ π :=
  match node.tag with
  | .rect =>
      match (node.attribute? "color").map Color.parse with
      | some (.ok c) => { s with backgroundColor := some c }
      | _ => s
  | _ => s

/-- The box of a text: the widest line and the number of lines, each times the font size, with the
border of the font on both sides. -/
def textBox? (s : Style τ π) (text : String) : Option (π × π) := do
  let size ← s.fontSize
  let font ← size.pixels?
  let border := max (s.fontBorderWidth.getD 0) 0 * PixelCount.ofInt 2
  let lines := Text.splitAll '\n' text.toList
  let widest := (lines.map List.length).foldl max 0
  some
    (PixelCount.ofInt widest * font + border, PixelCount.ofInt lines.length * font + border)

/-- A concrete margin or padding in time; what stays open is no time. -/
def resolveSpan (parent : Option τ) (fps : τ) (t : Span τ) : Span τ :=
  match t.resolve parent none fps with
  | .seconds t => .seconds t
  | _ => .zero

/-- A concrete margin or padding in space; what stays open is no pixels. -/
def resolveEdge (parent : Option π) (frame : Resolution) (l : Length π) : Length π :=
  match l.resolve parent none frame with
  | .pixel n => .pixel n
  | _ => .zero

/-- Concrete edges: shares of the height above and below, of the width on the sides. -/
def resolveEdges (width height : Option π) (frame : Resolution) (e : Edges π) : Edges π where
  top := resolveEdge height frame e.top
  right := resolveEdge width frame e.right
  bottom := resolveEdge height frame e.bottom
  left := resolveEdge width frame e.left

/-- The natural box of a text becomes that of its source. -/
def measured (s : Style τ π) : Option String → Style τ π
  | none => s
  | some text =>
      match s.textBox? text with
      | some (width, height) =>
          { s with source := { s.source with width := some width, height := some height } }
      | none => s

/-- Resolves every unit against the parent; the root resolves against the frame. `text` is the body
of a text node. -/
def resolve (s : Style τ π) (text : Option String) (parent : Option (Style τ π)) (frame : Frame τ) :
    Style τ π :=
  let length := parent.bind fun p => p.objectLength.seconds?
  let (width, height) := match parent with
    | some p => (p.width.pixels?, p.height.pixels?)
    | none =>
        (some (PixelCount.ofInt frame.resolution.width),
          some (PixelCount.ofInt frame.resolution.height))
  let span := resolveSpan length frame.fps
  let s :=
    { s with
      objectLength := s.objectLength.resolve length s.source.duration frame.fps
      timeMarginStart := span s.timeMarginStart
      timeMarginEnd := span s.timeMarginEnd
      timePaddingStart := span s.timePaddingStart
      timePaddingEnd := span s.timePaddingEnd
      fontSize := s.fontSize.map (Length.resolve height none frame.resolution) }
  let s := s.measured text
  { s with
    width := s.width.resolve width s.source.width frame.resolution
    height := s.height.resolve height s.source.height frame.resolution
    margin := resolveEdges width height frame.resolution s.margin
    padding := resolveEdges width height frame.resolution s.padding }

end Style

/-- The body of a text node. -/
def Node.body? (n : Node) : Option String :=
  match n.tag with
  | .txt => some (n.text.getD "")
  | _ => none

/-- What is constant while a document is styled. -/
structure Styling (τ : Type) where
  sheet : StyleSheet
  frame : Frame τ
  probe : Probe τ

namespace Styling

/-- The facts of the media behind a node, which is found at `source`. -/
def facts (c : Styling τ) (node : Node) (source : Option Path) :
    Probing τ (SourceFacts τ π) :=
  match node.tag.kind? with
  | none => pure .unknown
  | some .text => pure .unknown
  | some kind =>
      match source with
      | none => throw (.schema (.noSource node.tag))
      | some path => do
          let info ← Probing.info c.probe path
          match info.facts kind with
          | .ok facts => pure facts
          | .error part => throw (.probe path (.missing part kind))

/-- The declarations for a node in the order in which they apply. -/
def declarations (c : Styling τ) (node : Node) (ancestors : List Identity) : List Declaration :=
  let inline := match node.attribute? "style" with
    | some text => Sheet.parseInline text
    | none => []
  c.sheet.matching (.ofNode node) ancestors ++ inline

/-- The style of a node before any declaration: what it inherits and what its element sets. -/
def base (node : Node) (parent : Option (Style τ π)) : Style τ π :=
  let start := match parent with
    | some p => Style.inherited p
    | none => Style.initial
  start.withDefaults node.tag

/-- The style of a node, whose ancestors are given from the parent outward. -/
def style (c : Styling τ) (node : Node) (ancestors : List Identity) (parent : Option (Style τ π))
    (source : Option Path) : Probing τ (Style τ π) := do
  let facts ← c.facts node source
  let s := { base node parent with source := facts }
  let s := s.declareAll (c.declarations node ancestors)
  let s := s.withAttributes node
  pure (s.resolve node.body? parent c.frame)

end Styling
end Montage
