import Montage.Tag
import Montage.Text.Blank

/-!
# Content as written

The content of a document before any style is applied: a tree of elements with their attributes.

**Input.** Elements, attributes in their order, and the bodies of texts.

**Algorithm.** Look-up of attributes by name; the first of a name counts.

**Results.** The classes and the identifier by which style sheets address a node.
-/

namespace Montage

/-- An element of the content tree as written. Only texts have a body. -/
structure Node where
  tag : Tag
  attributes : List (String × String)
  children : List Node
  text : Option String

namespace Node

/-- The value of an attribute. -/
def attribute? (n : Node) (name : String) : Option String :=
  n.attributes.lookup name

/-- The classes of a node. -/
def classes (n : Node) : List String :=
  match n.attribute? "class" with
  | some value => (Text.words value.toList).map String.ofList
  | none => []

/-- The identifier of a node. -/
def id? (n : Node) : Option String :=
  n.attribute? "id"

end Node
end Montage
