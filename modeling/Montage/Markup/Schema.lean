import Montage.Markup.Element
import Montage.Markup.Node
import Montage.Measure.Resolution

/-!
# The document schema

Which element trees are content, and what they say.

**Input.** The element of a content node.

**Algorithm.** Recursion over the element. Every element has one of the known names; texts hold
characters and line breaks, media elements name their source and are empty, and all others hold
elements only.

**Results.** `Node.ofElement` gives the content node of the same shape, or the first fault.
-/

namespace Montage

/-- Why a document does not follow the schema. -/
inductive SchemaFault where
  | tree (fault : Markup.TreeFault)
  | wrongRoot (name : String)
  | unexpectedElement (name inside : String)
  | unexpectedText (text inside : String)
  | noContent
  | noResolution
  | noFrameRate
  | badResolution (error : ValueError)
  | badFrameRate (text : String)
  | unknownTag (name : String)
  | noSource (tag : Tag)
  | notEmpty (tag : Tag)
  | noMediaPath (tag : Tag)
  deriving Repr, DecidableEq

namespace SchemaFault

/-- The wording of a fault. -/
def message : SchemaFault → String
  | tree fault => fault.message
  | wrongRoot name => s!"expected <vsml> document root, found <{name}>"
  | unexpectedElement name inside => s!"unexpected <{name}> inside <{inside}>"
  | unexpectedText text inside => s!"unexpected text `{text}` inside <{inside}>"
  | noContent => "missing <cont> element"
  | noResolution => "<cont> requires a `resolution` attribute"
  | noFrameRate => "<cont> requires an `fps` attribute"
  | badResolution error => error.message
  | badFrameRate text => s!"invalid fps `{text}`"
  | unknownTag name => s!"unknown tag <{name}>"
  | noSource tag => s!"<{tag.name}> requires a `src` attribute"
  | notEmpty tag => s!"<{tag.name}> must be empty"
  | noMediaPath tag => s!"<{tag.name}> has no media path"

end SchemaFault

namespace Markup

/-- A text without blanks around it. -/
def trimmed (s : String) : String :=
  String.ofList (Text.trim s.toList)

/-- Whether a text is blank. -/
def isBlankText (s : String) : Bool :=
  s.toList.all Text.isBlank

namespace Element

/-- Refuses text that is not blank. -/
def rejectText (e : Element) : Except SchemaFault Unit :=
  match e.texts.find? fun s => !isBlankText s with
  | some s => .error (.unexpectedText (trimmed s) e.name)
  | none => .ok ()

/-- Whether an element holds nothing but blank text. -/
def isBlank (e : Element) : Bool :=
  e.children.all fun
    | .element _ => false
    | .text s => isBlankText s

end Element

/-- A piece of text inside a text element: line ends of the document and the blanks after them do
not count. -/
def unwrapped (s : String) : List Char :=
  match Text.splitAll '\n' s.toList with
  | [] => []
  | first :: others => first ++ (others.map Text.trimStart).flatten

/-- The characters of a text element: its texts, and a line end for each break. -/
def bodyChars : List Content → Except SchemaFault (List Char)
  | [] => .ok []
  | .text s :: rest => do
      let cs ← bodyChars rest
      .ok (unwrapped s ++ cs)
  | .element e :: rest =>
      if e.name = "br" then do
        let cs ← bodyChars rest
        .ok ('\n' :: cs)
      else
        .error (.unexpectedElement e.name "txt")

/-- The body of a text element, without blanks around it. -/
def Element.textBody (e : Element) : Except SchemaFault String := do
  let cs ← bodyChars e.children
  .ok (String.ofList (Text.trim cs))

/-- Whether an element names its source. -/
def Element.hasSource (e : Element) : Bool :=
  match e.attribute? "src" with
  | some src => !src.isEmpty
  | none => false

mutual

/-- The content node of an element. -/
def nodeOfElement : Element → Except SchemaFault Node
  | .mk name attributes children =>
      let e := Element.mk name attributes children
      match Tag.ofName? name with
      | none => .error (.unknownTag name)
      | some tag =>
          match tag.kind? with
          | some .text => do
              let body ← e.textBody
              .ok ⟨tag, attributes, [], some body⟩
          | some _ =>
              if !e.hasSource then .error (.noSource tag)
              else if !e.isBlank then .error (.notEmpty tag)
              else .ok ⟨tag, attributes, [], none⟩
          | none => do
              e.rejectText
              let nodes ← nodesOfContents children
              .ok ⟨tag, attributes, nodes, none⟩

/-- The content nodes of the elements among what an element holds. -/
def nodesOfContents : List Content → Except SchemaFault (List Node)
  | [] => .ok []
  | .text _ :: rest => nodesOfContents rest
  | .element e :: rest => do
      let node ← nodeOfElement e
      let nodes ← nodesOfContents rest
      .ok (node :: nodes)

end

end Markup

/-- The content node of an element. -/
def Node.ofElement (e : Markup.Element) : Except SchemaFault Node :=
  Markup.nodeOfElement e

end Montage
