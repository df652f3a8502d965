import Montage.Markup.Event

/-!
# Element trees

**Input.** The events of a document.

**Algorithm.** Open elements are kept on a stack; an element that closes joins the innermost element
that is still open, or becomes the root. Text outside the root is passed over.

**Results.** `Element.ofEvents` gives the tree of a document with exactly one root, or the first
fault.
-/

namespace Montage
namespace Markup

mutual

/-- An element with its attributes and what it holds. -/
inductive Element where
  | mk (name : String) (attributes : List (String × String)) (children : List Content)

/-- What elements hold: elements and text. -/
inductive Content where
  | element (e : Element)
  | text (s : String)

end

/-- Why events are no document. -/
inductive TreeFault where
  | malformed
  | unopened
  | unclosed (name : String)
  | secondRoot
  | noRoot
  deriving Repr, DecidableEq

namespace TreeFault

/-- The wording of a fault. -/
def message : TreeFault → String
  | malformed => "malformed markup"
  | unopened => "unbalanced closing tag"
  | unclosed name => s!"unclosed <{name}>"
  | secondRoot => "multiple document roots"
  | noRoot => "empty document"

end TreeFault

namespace Element

/-- The name of an element. -/
def name : Element → String
  | mk name _ _ => name

/-- The attributes of an element in order. -/
def attributes : Element → List (String × String)
  | mk _ attributes _ => attributes

/-- What an element holds, in order. -/
def children : Element → List Content
  | mk _ _ children => children

/-- The value of an attribute. -/
def attribute? (e : Element) (key : String) : Option String :=
  e.attributes.lookup key

/-- The elements directly inside. -/
def elements (e : Element) : List Element :=
  e.children.filterMap fun
    | .element e => some e
    | .text _ => none

/-- The texts directly inside. -/
def texts (e : Element) : List String :=
  e.children.filterMap fun
    | .element _ => none
    | .text s => some s

/-- The element with one more child at its end. -/
def push (e : Element) (c : Content) : Element :=
  mk e.name e.attributes (e.children ++ [c])

end Element

/-- A tree that is being built: the open elements, the innermost first, and the finished root. -/
structure Assembly where
  stack : List Element
  root : Option Element

namespace Assembly

/-- Nothing has been read. -/
def start : Assembly :=
  ⟨[], none⟩

/-- A finished element joins the innermost open element, or becomes the root. -/
def attach (a : Assembly) (e : Element) : Except TreeFault Assembly :=
  match a.stack with
  | parent :: stack => .ok { a with stack := parent.push (.element e) :: stack }
  | [] =>
      match a.root with
      | none => .ok { a with root := some e }
      | some _ => .error .secondRoot

/-- The effect of an event. -/
def step (a : Assembly) : Event → Except TreeFault Assembly
  | .start name attributes => .ok { a with stack := .mk name attributes [] :: a.stack }
  | .empty name attributes => a.attach (.mk name attributes [])
  | .stop =>
      match a.stack with
      | [] => .error .unopened
      | e :: stack => attach { a with stack } e
  | .text s =>
      match a.stack with
      | [] => .ok a
      | parent :: stack => .ok { a with stack := parent.push (.text s) :: stack }
  | .ignored => .ok a
  | .fault => .error .malformed

/-- The root, once no element is open. -/
def finish (a : Assembly) : Except TreeFault Element :=
  match a.stack, a.root with
  | e :: _, _ => .error (.unclosed e.name)
  | [], some root => .ok root
  | [], none => .error .noRoot

end Assembly

/-- The element tree of a sequence of events. -/
def Element.ofEvents (events : List Event) : Except TreeFault Element := do
  let a ← events.foldlM Assembly.step Assembly.start
  a.finish

/-- The element tree of a document text. -/
def Element.ofText (s : String) : Except TreeFault Element :=
  Element.ofEvents (Event.ofText s)

end Markup
end Montage
