import Montage.Path
import Montage.Style.Basic
import Montage.Tag

/-!
# Scenes

The content of a document with its resolved styles: a tree of containers, which order their children
in time, and leaves, which show media or text.

**Input.** Elements, styles, and where the media of leaves are found.

**Algorithm.** A container bears a stream if one of its children does; a leaf bears the streams of
its kind of media.

**Results.** `hasVideo` and `hasAudio` tell which streams a node bears.
-/

namespace Montage

/-- Where the media of a leaf come from. -/
inductive Locator where
  | path (p : Path)
  | text (s : String)
  deriving Repr, DecidableEq

/-- A node of the content tree with its style. -/
inductive Scene (τ π : Type) where
  | container (tag : Tag) (style : Style τ π) (items : List (Scene τ π))
  | leaf (tag : Tag) (kind : MediaKind) (locator : Locator) (style : Style τ π)

namespace Scene

variable {τ π : Type}

/-- The element of a node. -/
def tag : Scene τ π → Tag
  | container tag _ _ => tag
  | leaf tag _ _ _ => tag

/-- The style of a node. -/
def style : Scene τ π → Style τ π
  | container _ style _ => style
  | leaf _ _ _ style => style

/-- The children of a node. -/
def items : Scene τ π → List (Scene τ π)
  | container _ _ items => items
  | leaf .. => []

mutual

/-- Whether a node can be seen. -/
def hasVideo : Scene τ π → Bool
  | container _ _ items => anyVideo items
  | leaf _ kind _ _ => kind.hasVideo

/-- Whether one of the nodes can be seen. -/
def anyVideo : List (Scene τ π) → Bool
  | [] => false
  | s :: rest => s.hasVideo || anyVideo rest

end

mutual

/-- Whether a node can be heard. -/
def hasAudio : Scene τ π → Bool
  | container _ _ items => anyAudio items
  | leaf _ kind _ _ => kind.hasAudio

/-- Whether one of the nodes can be heard. -/
def anyAudio : List (Scene τ π) → Bool
  | [] => false
  | s :: rest => s.hasAudio || anyAudio rest

end

mutual

/-- The number of nodes in a tree. -/
def size : Scene τ π → Nat
  | container _ _ items => sizeAll items + 1
  | leaf .. => 1

/-- The number of nodes in trees. -/
def sizeAll : List (Scene τ π) → Nat
  | [] => 0
  | s :: rest => s.size + sizeAll rest

end

theorem anyVideo_eq_any (items : List (Scene τ π)) : anyVideo items = items.any hasVideo := by
  induction items with
  | nil => simp [anyVideo]
  | cons s rest ih => simp [anyVideo, ih]

theorem anyAudio_eq_any (items : List (Scene τ π)) : anyAudio items = items.any hasAudio := by
  induction items with
  | nil => simp [anyAudio]
  | cons s rest ih => simp [anyAudio, ih]

end Scene
end Montage
