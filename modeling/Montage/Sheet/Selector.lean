import Montage.Markup.Node

/-!
# Selectors

A selector is a chain of words, each an element name, a `.class` or an `#id`. Its last word must fit
the node itself, the words before it must fit ancestors in the same order.

**Input.** The text of a selector, and a node with its ancestors.

**Algorithm.** The words before the last are matched from right to left, each with the nearest
ancestor that fits.

**Results.** `Selector.selects` decides whether a selector addresses a node.
-/

namespace Montage

/-- A word of a selector. -/
inductive Segment where
  | element (name : String)
  | class (name : String)
  | id (name : String)
  deriving Repr, DecidableEq

/-- What selectors see of a node. -/
structure Identity where
  tag : Tag
  classes : List String
  id : Option String
  deriving Repr, DecidableEq

namespace Identity

/-- What selectors see of a node. -/
def ofNode (n : Node) : Identity :=
  ⟨n.tag, n.classes, n.id?⟩

end Identity

namespace Segment

/-- The characters of names. -/
def isNameChar (c : Char) : Bool :=
  c.isAlphanum || c == '_' || c == '-'

/-- A nonempty text of name characters. -/
def name? (cs : List Char) : Option String :=
  if !cs.isEmpty && cs.all isNameChar then some (String.ofList cs) else none

/-- Reads a word. -/
def parse? : List Char → Option Segment
  | '.' :: cs => (name? cs).map .class
  | '#' :: cs => (name? cs).map .id
  | cs => (name? cs).map element

/-- The form that `parse?` reads. -/
def text : Segment → String
  | element name => name
  | .class name => "." ++ name
  | .id name => "#" ++ name

/-- Whether a word fits a node. -/
def fits : Segment → Identity → Bool
  | element name, i => i.tag.name == name
  | .class name, i => i.classes.contains name
  | .id name, i => i.id == some name

end Segment

/-- A selector: words for ancestors, the outermost first, and a word for the node itself. -/
structure Selector where
  ancestors : List Segment
  subject : Segment
  deriving Repr, DecidableEq

/-- Why a text is no selector. -/
inductive SelectorError where
  | invalid (text : String)
  | empty
  deriving Repr, DecidableEq

namespace SelectorError

/-- The wording of an error. -/
def message : SelectorError → String
  | invalid text => s!"invalid selector `{text}`"
  | empty => "empty selector"

end SelectorError

namespace Selector

/-- All words in order. -/
def segments (s : Selector) : List Segment :=
  s.ancestors ++ [s.subject]

/-- The selector of a nonempty list of words. -/
def ofSegments? (words : List Segment) : Option Selector :=
  words.getLast?.map fun subject => ⟨words.dropLast, subject⟩

/-- Reads a selector. -/
def parse (s : String) : Except SelectorError Selector :=
  match (Text.words s.toList).mapM Segment.parse? with
  | none => .error (.invalid s)
  | some words =>
      match ofSegments? words with
      | some selector => .ok selector
      | none => .error .empty

/-- The form that `parse` reads. -/
def text (s : Selector) : String :=
  String.intercalate " " (s.segments.map Segment.text)

/-- Whether words fit ancestors in the same order; both lists go from the inside out. -/
def fitsAncestors : List Segment → List Identity → Bool
  | [], _ => true
  | _ :: _, [] => false
  | w :: ws, a :: as => if w.fits a then fitsAncestors ws as else fitsAncestors (w :: ws) as

/-- Whether a selector addresses a node, given its ancestors from the parent outward. -/
def selects (s : Selector) (node : Identity) (ancestors : List Identity) : Bool :=
  s.subject.fits node && fitsAncestors s.ancestors.reverse ancestors

@[simp] theorem ofSegments?_segments (s : Selector) : ofSegments? s.segments = some s := by
  simp [ofSegments?, segments]

end Selector
end Montage
