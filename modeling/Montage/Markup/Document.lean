import Montage.Failure
import Montage.Measure.Timescale

/-!
# Documents

A document names its style sheets, its frame size and rate, and its content.

**Input.** The text of a document, the directory that its paths start from, and the texts of
other files.

**Algorithm.** The element tree is checked against the schema from the root down. The sheets are
read in the order in which they are named, and their rules joined.

**Results.** `Document.parse` gives the document, or the first failure.
-/

namespace Montage

/-- The texts of files; a file that cannot be read gives the reason. -/
abbrev FileTexts :=
  Path → Except String String

/-- A document. -/
structure Document (τ : Type) where
  baseDir : Path
  frame : Frame τ
  sheet : StyleSheet
  root : Node

namespace Document

variable {τ : Type} [Timescale τ]

/-- The path of a source that is named in a document. -/
def locate (d : Document τ) (source : String) : Path :=
  d.baseDir.join source

/-- The file that a style element names, if it names one. -/
def sheetSource? (e : Markup.Element) : Option String :=
  (e.attribute? "src").filter fun source => !source.isEmpty

/-- The sheet of an element: in a file of its own, or inside the element. -/
def sheetOfElement (files : FileTexts) (baseDir : Path) (e : Markup.Element) :
    Except Failure StyleSheet := do
  let text ← match sheetSource? e with
    | some source =>
        let path := baseDir.join source
        (files path).mapError (.sheetFile path)
    | none => .ok (String.join e.texts)
  (StyleSheet.parse text).mapError .sheet

/-- The rules of the sheets that the elements name. -/
def sheetOfElements (files : FileTexts) (baseDir : Path) :
    List Markup.Element → Except Failure StyleSheet
  | [] => .ok .empty
  | e :: rest =>
      if e.name = "style" then do
        let first ← sheetOfElement files baseDir e
        let others ← sheetOfElements files baseDir rest
        .ok (first ++ others)
      else
        .error (.schema (.unexpectedElement e.name "meta"))

/-- The rules and the content element among the elements of a document: the content comes last and
only once. -/
def partsOfElements (files : FileTexts) (baseDir : Path) :
    List Markup.Element → Except Failure (StyleSheet × Markup.Element)
  | [] => .error (.schema .noContent)
  | e :: rest =>
      if e.name = "meta" then do
        e.rejectText.mapError .schema
        let first ← sheetOfElements files baseDir e.elements
        let (others, content) ← partsOfElements files baseDir rest
        .ok (first ++ others, content)
      else if e.name = "cont" then
        match rest with
        | [] => .ok (.empty, e)
        | other :: _ => .error (.schema (.unexpectedElement other.name "vsml"))
      else
        .error (.schema (.unexpectedElement e.name "vsml"))

/-- A positive number of frames per second. -/
def frameRate? (text : String) : Option τ := do
  let literal ← Decimal.Literal.parse? (Text.trim text.toList)
  let fps : τ ← Timescale.ofLiteral? literal
  if 0 < fps then some fps else none

/-- The frame size and rate of the content element. -/
def frameOfElement (e : Markup.Element) : Except SchemaFault (Frame τ) :=
  match e.attribute? "resolution" with
  | none => .error .noResolution
  | some text =>
      match Resolution.parse text with
      | .error error => .error (.badResolution error)
      | .ok resolution =>
          match e.attribute? "fps" with
          | none => .error .noFrameRate
          | some text =>
              match frameRate? text with
              | none => .error (.badFrameRate text)
              | some fps => .ok ⟨resolution, fps⟩

/-- The document of an element tree. -/
def ofElement (files : FileTexts) (baseDir : Path) (root : Markup.Element) :
    Except Failure (Document τ) :=
  if root.name = "vsml" then do
    root.rejectText.mapError .schema
    let (sheet, content) ← partsOfElements files baseDir root.elements
    let frame ← (frameOfElement content).mapError .schema
    let node ← (Node.ofElement content).mapError .schema
    .ok ⟨baseDir, frame, sheet, node⟩
  else
    .error (.schema (.wrongRoot root.name))

/-- Reads a document. -/
def parse (files : FileTexts) (baseDir : Path) (text : String) : Except Failure (Document τ) := do
  let root ← (Markup.Element.ofText text).mapError fun fault => .schema (.tree fault)
  ofElement files baseDir root

/-- The files of sheets that an element tree names. -/
def sheetFiles (baseDir : Path) (root : Markup.Element) : List Path :=
  let heads := root.elements.filter fun e => e.name == "meta"
  let sheets := (heads.flatMap Markup.Element.elements).filter fun e => e.name == "style"
  (sheets.filterMap sheetSource?).map baseDir.join

end Document
end Montage
