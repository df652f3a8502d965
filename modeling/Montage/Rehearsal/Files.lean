import Montage.Path

/-!
# Files in memory

A tree of files that is a value, so that a rendering can be rehearsed without touching a machine.

**Input.** Paths and texts.

**Algorithm.** Every file and directory has a place: the names on the way to it. A path is walked name
by name; every name but the last has to be that of a directory.

**Results.** Reading, writing and creating directories, each with the faults of a real machine.
-/

namespace Montage
namespace Rehearsal

/-- What lies at a place. -/
inductive Entry where
  | directory
  | file (text : String) (executable : Bool)
  deriving Repr, DecidableEq

/-- Why a file cannot be reached. -/
inductive FileFault where
  | missing
  | refused
  | taken
  | notDirectory
  | directory
  | longName
  | brokenName
  | notProgram
  deriving Repr, DecidableEq

namespace FileFault

/-- The wording of a fault. -/
def message : FileFault → String
  | missing => "No such file or directory (os error 2)"
  | refused => "Permission denied (os error 13)"
  | taken => "File exists (os error 17)"
  | notDirectory => "Not a directory (os error 20)"
  | directory => "Is a directory (os error 21)"
  | longName => "File name too long (os error 36)"
  | brokenName => "file name contained an unexpected NUL byte"
  | notProgram => "Exec format error (os error 8)"

end FileFault

/-- The names on the way from the working directory; those from the root begin with a slash. -/
abbrev Place :=
  List String

/-- What lies at which place. The working directory and the root are always there. -/
structure Files where
  entries : List (Place × Entry)
  deriving Repr, DecidableEq

namespace Files

/-- What lies at a place. -/
def entry? (f : Files) (place : Place) : Option Entry :=
  if place = [] ∨ place = ["/"] then some .directory else f.entries.lookup place

/-- Puts something at a place. -/
def put (f : Files) (place : Place) (e : Entry) : Files :=
  ⟨(place, e) :: f.entries.filter fun entry => entry.1 != place⟩

/-- The place that is reached from another by names; nothing has to lie there. -/
def walk (f : Files) (place : Place) : List String → Except FileFault Place
  | [] => .ok place
  | name :: rest =>
      match f.entry? place with
      | none => .error .missing
      | some (.file _ _) => .error .notDirectory
      | some .directory =>
          if name = "." then walk f place rest
          else if name = ".." then walk f place.dropLast rest
          else if 255 < name.utf8ByteSize then .error .longName
          else walk f (place ++ [name]) rest

/-- Whether only a directory can lie at a path. -/
def endsInDirectory (p : Path) : Bool :=
  match p.text.toList.reverse with
  | '/' :: _ => true
  | '.' :: '/' :: _ => true
  | _ => false

/-- The place of a path, and what lies there. -/
def locate (f : Files) (p : Path) : Except FileFault (Place × Option Entry) :=
  if p.text.toList.contains '\x00' then
    .error .brokenName
  else if p.text.isEmpty then
    .error .missing
  else do
    let place ← f.walk [] p.components
    match f.entry? place with
    | some (.file text executable) =>
        if endsInDirectory p then .error .notDirectory
        else .ok (place, some (.file text executable))
    | found => .ok (place, found)

/-- The text of a file. -/
def read (f : Files) (p : Path) : Except FileFault String := do
  match ← f.locate p with
  | (_, none) => .error .missing
  | (_, some .directory) => .error .directory
  | (_, some (.file text _)) => .ok text

/-- Writes a file; `change` gives the new text from the old one, which is empty for a new file. -/
def write (f : Files) (p : Path) (change : String → String) : Except FileFault Files := do
  match ← f.locate p with
  | (place, none) =>
      if endsInDirectory p then .error .directory
      else .ok (f.put place (.file (change "") false))
  | (_, some .directory) => .error .directory
  | (place, some (.file text executable)) =>
      .ok (f.put place (.file (change text) executable))

/-- Creates the directories on the way along names. -/
def createFrom (f : Files) (place : Place) : List String → Except FileFault Files
  | [] => .ok f
  | name :: rest =>
      if name = "." then createFrom f place rest
      else if name = ".." then createFrom f place.dropLast rest
      else
        let next := place ++ [name]
        match f.entry? next with
        | none => createFrom (f.put next .directory) next rest
        | some .directory => createFrom f next rest
        | some (.file _ _) => .error (if rest.isEmpty then .taken else .notDirectory)

/-- Creates a directory and those above it. -/
def createDirectories (f : Files) (p : Path) : Except FileFault Files :=
  f.createFrom [] p.components

/-- Whether there is something at a path. -/
def isThere (f : Files) (p : Path) : Bool :=
  match f.locate p with
  | .ok (_, some _) => true
  | _ => false

/-- Whether there is a file at a path. -/
def isFile (f : Files) (p : Path) : Bool :=
  match f.locate p with
  | .ok (_, some (.file _ _)) => true
  | _ => false

/-- Adds a file and the directories above it. A text that begins like a script is executable. -/
def addFile (f : Files) (p : Path) (text : String) : Files :=
  let f := (f.createFrom [] p.components.dropLast).toOption.getD f
  f.put p.components (.file text (text.toList.take 2 == ['#', '!']))

/-- Adds a directory and those above it. -/
def addDirectory (f : Files) (p : Path) : Files :=
  (f.createDirectories p).toOption.getD f

/-- The texts of the files below the working directory. -/
def texts (f : Files) : List (Path × String) :=
  f.entries.filterMap fun (place, e) =>
    match e with
    | .file text _ =>
        if place.head? = some "/" then none else some (⟨String.intercalate "/" place⟩, text)
    | .directory => none

/-- The files whose texts are new since another state. -/
def since (now before : Files) : List (Path × String) :=
  now.texts.filter fun entry => !before.texts.contains entry

end Files
end Rehearsal
end Montage
