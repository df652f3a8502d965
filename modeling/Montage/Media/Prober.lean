import Montage.Host
import Montage.Measure.Word
import Montage.Media.Cache
import Montage.Media.Report
import Montage.Scene.Build

/-!
# Probing media

How the media of a document are probed by another program.

**Input.** The name of the probing program, and the document.

**Algorithm.** The program is run on a file and prints a report. The media of a document are probed in
the order in which its nodes are styled, each file once, up to the first that a node cannot use.

**Results.** `Document.sceneWith` is the scene of a document whose media are probed on the host.
-/

namespace Montage

namespace Prober

variable {m : Type → Type} [Monad m] [Host m]

/-- The arguments that ask for a report on a file. -/
def arguments (path : Path) : List String :=
  ["-v", "error", "-show_format", "-show_streams", "-of", "json", path.text]

/-- What a run of the program tells about a file. -/
def ofExit (binary : String) (path : Path) (e : Exit) : Except Failure (MediaInfo Float) :=
  if e.isSuccess then
    match MediaInfo.ofReport? e.output with
    | some info => .ok info
    | none => .error (.probe path .badReport)
  else
    .error (.probe path (.stopped binary e.status e.complaint))

/-- What is known about a file, once the program has been run on it. -/
def probe (binary : String) (path : Path) : m (Except Failure (MediaInfo Float)) := do
  if ← Host.isThere path then
    match ← Host.run binary (arguments path) with
    | .ok e => pure (ofExit binary path e)
    | .error reason => pure (.error (.probe path (.notStarted binary reason)))
  else
    pure (.error (.fileNotFound path))

end Prober

mutual

/-- The media of a node and of all nodes below it. -/
def mediaOfNode (baseDir : Path) : Node → List (MediaKind × Path)
  | ⟨tag, attributes, children, text⟩ =>
      let node : Node := ⟨tag, attributes, children, text⟩
      let own := match tag.kind?, node.source? baseDir with
        | some kind, some path => [(kind, path)]
        | _, _ => []
      own ++ mediaOfNodes baseDir children

/-- The media of nodes in order. -/
def mediaOfNodes (baseDir : Path) : List Node → List (MediaKind × Path)
  | [] => []
  | n :: ns => mediaOfNode baseDir n ++ mediaOfNodes baseDir ns

end

/-- What was found about files. -/
abbrev Findings :=
  List (Path × Except Failure (MediaInfo Float))

namespace Findings

/-- What was found about a file; nothing was found about other files. -/
def probe (f : Findings) : Probe Float :=
  fun path =>
    match f.find? fun entry => entry.1.same path with
    | some (_, found) => found
    | none => .error (.fileNotFound path)

/-- Whether a leaf of a kind can use what was found. -/
def isUsable (found : Except Failure (MediaInfo Float)) (kind : MediaKind) : Bool :=
  match found with
  | .ok info => (info.missing? kind).isNone
  | .error _ => false

variable {m : Type → Type} [Monad m] [Host m]

/-- Adds what the program tells about media, up to the first that cannot be used. -/
def gather (binary : String) (f : Findings) : List (MediaKind × Path) → m Findings
  | [] => pure f
  | (kind, path) :: rest => do
      let (found, f) ← match f.find? fun entry => entry.1.same path with
        | some (_, found) => pure (found, f)
        | none => do
            let found ← Prober.probe binary path
            pure (found, (path, found) :: f)
      if isUsable found kind then gather binary f rest else pure f

end Findings

/-- The scene of a document whose media are probed by a program. -/
def Document.sceneWith {m : Type → Type} [Monad m] [Host m] (d : Document Float)
    (binary : String) : ExceptT Failure m (Scene Float Word) := do
  let found ← (Findings.gather binary [] (mediaOfNode d.baseDir d.root) : m Findings)
  ExceptT.mk (pure (d.scene (Findings.probe found)))

end Montage
