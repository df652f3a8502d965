import Montage.Text.Split

/-!
# Paths

The names of files, as texts of components between slashes.

**Input.** The text of a path.

**Algorithm.** Repeated slashes, slashes at the end and single dots inside a path do not count; all
else about a path is read off its components.

**Results.** Two paths are the same if they have the same components (`Path.same`).
-/

namespace Montage

/-- A path, as it is written. -/
structure Path where
  text : String
  deriving Repr, DecidableEq

namespace Path

/-- Whether a path starts at the root of all files. -/
def isAbsolute (p : Path) : Bool :=
  p.text.toList.head? == some '/'

/-- A piece of a path with the number of characters up to its end. -/
structure Piece where
  name : List Char
  stop : Nat
  deriving Repr, DecidableEq

/-- The pieces between slashes. -/
def piecesFrom : Nat → List (List Char) → List Piece
  | _, [] => []
  | start, name :: names => ⟨name, start + name.length⟩ :: piecesFrom (start + name.length + 1) names

/-- The pieces of a path that count: empty ones do not, and a dot only at the very beginning. -/
def pieces (p : Path) : List Piece :=
  let all := piecesFrom 0 (Text.splitAll '/' p.text.toList)
  all.filter fun piece => !piece.name.isEmpty && (piece.name != ['.'] || piece.stop == 1)

/-- The components of a path: the root, if the path starts there, and the names that count. -/
def components (p : Path) : List String :=
  let names := p.pieces.map fun piece => String.ofList piece.name
  if p.isAbsolute then "/" :: names else names

/-- Whether two paths have the same components. -/
def same (p q : Path) : Bool :=
  p.components == q.components

/-- A path inside another; an absolute one stands alone. -/
def join (p : Path) (q : String) : Path :=
  if q.toList.head? == some '/' then ⟨q⟩
  else if p.text.isEmpty || p.text.toList.getLast? == some '/' then ⟨p.text ++ q⟩
  else ⟨p.text ++ "/" ++ q⟩

/-- The path without its last component. -/
def parent? (p : Path) : Option Path :=
  match p.pieces.reverse with
  | [] => none
  | [_] => some (if p.isAbsolute then ⟨"/"⟩ else ⟨""⟩)
  | _ :: piece :: _ => some ⟨String.ofList (p.text.toList.take piece.stop)⟩

/-- The last component, if it is a name and no step within the tree of files. -/
def fileName? (p : Path) : Option Piece :=
  p.pieces.getLast?.filter fun piece => piece.name != ['.', '.'] && piece.name != ['.']

/-- The last component around its last point; a point at the very beginning does not count. -/
def stemAndExtension (name : List Char) : List Char × Option (List Char) :=
  match Text.splitLast? '.' name with
  | some ([], _) => (name, none)
  | some (stem, extension) => (stem, some extension)
  | none => (name, none)

/-- What follows the last point of the last component. -/
def extension? (p : Path) : Option String :=
  (p.fileName?.bind fun piece => (stemAndExtension piece.name).2).map String.ofList

/-- The path with another extension. -/
def withExtension (p : Path) (extension : String) : Path :=
  match p.fileName? with
  | none => p
  | some piece =>
      let dropped := piece.name.length - (stemAndExtension piece.name).1.length
      let stem := String.ofList (p.text.toList.take (piece.stop - dropped))
      if extension.isEmpty then ⟨stem⟩ else ⟨stem ++ "." ++ extension⟩

end Path
end Montage
