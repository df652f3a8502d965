import Montage.Failure
import Montage.Graph.Filter

/-!
# The workshop

What a document is compiled in: the graph as far as it has grown, and the canvases and media that can
be used again.

**Input.** Requests for canvases and for the streams of media.

**Algorithm.** A canvas or a stream is split at every request: one half is handed out, the other is
kept as a spare for the next request. At the end all spares are drained, in the order of their
labels.

**Results.** Every canvas is generated once and every file is read once, however often they are
used.
-/

namespace Montage

/-- What canvases are told apart by. -/
structure CanvasKey (π : Type) where
  width : π
  height : π
  color : Color
  deriving Repr, DecidableEq

/-- What media are told apart by. -/
structure SourceKey where
  path : Path
  kind : MediaKind
  deriving Repr, DecidableEq

namespace SourceKey

/-- Whether two keys name the same file of the same kind. -/
def same (a b : SourceKey) : Bool :=
  a.path.same b.path && a.kind == b.kind

end SourceKey

/-- The spare streams of a file. -/
structure Spares where
  video : Option Pad
  audio : Option Pad
  deriving Repr, DecidableEq

/-- The state of a compilation. -/
structure Workshop (τ π : Type) where
  frame : Frame τ
  sampleRate : Nat
  graph : Graph (Filter τ π)
  canvases : List (CanvasKey π × Pad)
  sources : List (SourceKey × Spares)

/-- Steps of a compilation. -/
abbrev Compile (τ π : Type) :=
  StateT (Workshop τ π) (Except Failure)

/-- The first entry whose key is accepted, and the entries without it. -/
def takeEntry {α β : Type} (fits : α → Bool) : List (α × β) → Option (β × List (α × β))
  | [] => none
  | (a, b) :: rest =>
      if fits a then
        some (b, rest)
      else
        (takeEntry fits rest).map fun (found, others) => (found, (a, b) :: others)

/-- Inserts a pad into pads that are sorted by their labels. -/
def insertByLabel (p : Pad) : List Pad → List Pad
  | [] => [p]
  | q :: rest => if p.label < q.label then p :: q :: rest else q :: insertByLabel p rest

/-- Pads in the order of their labels. -/
def sortByLabel (pads : List Pad) : List Pad :=
  pads.foldr insertByLabel []

namespace Workshop

variable {τ π : Type}

/-- A workshop before the first request. -/
def start (frame : Frame τ) (sampleRate : Nat) : Workshop τ π :=
  ⟨frame, sampleRate, .empty, [], []⟩

/-- The spare videos: those of canvases, then those of files. -/
def spareVideos (w : Workshop τ π) : List Pad :=
  w.canvases.map Prod.snd ++ w.sources.filterMap fun entry => entry.2.video

/-- The spare audios. -/
def spareAudios (w : Workshop τ π) : List Pad :=
  w.sources.filterMap fun entry => entry.2.audio

/-- Drains pads that nothing reads. -/
def drain (kind : StreamKind) (g : Graph (Filter τ π)) (pads : List Pad) : Graph (Filter τ π) :=
  pads.foldl (fun g p => g.sink p (.sink kind)) g

/-- The graph with every spare drained. -/
def finish (w : Workshop τ π) : Graph (Filter τ π) :=
  drain .audio (drain .video w.graph (sortByLabel w.spareVideos)) (sortByLabel w.spareAudios)

end Workshop

namespace Compile

variable {τ π : Type}

/-- Changes the graph and answers something about the change. -/
def onGraph {α : Type} (f : Graph (Filter τ π) → α × Graph (Filter τ π)) : Compile τ π α :=
  fun w =>
    let (a, g) := f w.graph
    .ok (a, { w with graph := g })

/-- Adds a filter that offers one pad. -/
def join (kind : StreamKind) (inputs : List Pad) (filter : Filter τ π) : Compile τ π Pad :=
  onGraph fun g => g.join kind inputs filter

/-- Adds a filter between one pad and a new one. -/
def apply (kind : StreamKind) (filter : Filter τ π) (input : Pad) : Compile τ π Pad :=
  join kind [input] filter

/-- Splits a stream in two. -/
def split (kind : StreamKind) (input : Pad) : Compile τ π (Pad × Pad) :=
  onGraph fun g => g.fork kind kind [input] (.split kind)

/-- Joins a video and an audio stream into a pair that runs together. -/
def pair (video audio : Pad) : Compile τ π (Pad × Pad) :=
  onGraph fun g => g.fork .video .audio [video, audio] .pair

variable [PixelCount π]

/-- Goes on, unless a calculation has stopped the program on its way to some counts. -/
def counted (ns : List π) : Compile τ π Unit :=
  match PixelCount.firstMishap? ns with
  | some calculation => throw (.mishap calculation)
  | none => pure ()

/-- A pixel count that has to be concrete. -/
def concrete (tag : Tag) (property : Dimension) (l : Length π) : Compile τ π π :=
  match l.pixels? with
  | some n => pure n
  | none => throw (.unresolved tag property)

/-- The stream that canvases of a key are split from. -/
def canvasStream (key : CanvasKey π) : Compile τ π Pad := do
  let w ← get
  match takeEntry (· == key) w.canvases with
  | some (spare, others) =>
      set { w with canvases := others }
      pure spare
  | none =>
      let generated ← join .video [] (.color key.width key.height key.color w.frame.fps)
      apply .video .rgba generated

/-- A canvas of one color. Both of its sides have to be concrete and positive. -/
def canvas (tag : Tag) (width height : Length π) (color : Option Color) : Compile τ π Pad := do
  counted ([width, height].filterMap Length.pixels?)
  let width ← concrete tag .width width
  let height ← concrete tag .height height
  if width ≤ 0 ∨ height ≤ 0 then
    throw (.emptyCanvas tag (PixelCount.toInt width) (PixelCount.toInt height))
  else
    let key : CanvasKey π := ⟨width, height, Color.orTransparent color⟩
    let stream ← canvasStream key
    let (taken, spare) ← split .video stream
    modify fun w => { w with canvases := (key, spare) :: w.canvases }
    pure taken

/-- The options before an input of a kind: a still picture is repeated at the frame rate. -/
def inputOptions [Timescale τ] (fps : τ) : MediaKind → List String
  | .image => ["-loop", "1", "-framerate", Timescale.text fps]
  | _ => []

/-- The spare streams of a file, which is added as an input if it is new. -/
def spares [Timescale τ] (key : SourceKey) (wantAudio : Bool) : Compile τ π Spares := do
  let w ← get
  match takeEntry key.same w.sources with
  | some (spares, others) =>
      set { w with sources := others }
      pure spares
  | none =>
      let index ← onGraph fun g => g.addInput ⟨inputOptions w.frame.fps key.kind, key.path⟩
      pure
        { video := if key.kind.hasVideo then some (.input index .video) else none
          audio := if wantAudio then some (.input index .audio) else none }

/-- Hands out a stream if it is wanted and there; the answer is the stream and what is left. -/
def handOut (kind : StreamKind) (wanted : Bool) (spare : Option Pad) :
    Compile τ π (Option Pad × Option Pad) :=
  match wanted, spare with
  | true, some stream => do
      let (taken, rest) ← split kind stream
      pure (some taken, some rest)
  | _, spare => pure (none, spare)

/-- The streams of a file that are wanted. -/
def source [Timescale τ] (path : Path) (kind : MediaKind) (wantVideo wantAudio : Bool) :
    Compile τ π (Option Pad × Option Pad) := do
  let key : SourceKey := ⟨path, kind⟩
  let spares ← spares key wantAudio
  let (video, videoSpare) ← handOut .video wantVideo spares.video
  let (audio, audioSpare) ← handOut .audio wantAudio spares.audio
  modify fun w => { w with sources := (key, ⟨videoSpare, audioSpare⟩) :: w.sources }
  pure (video, audio)

end Compile
end Montage
