import Montage.Compile.Leaf
import Montage.Scene.Layout

/-!
# Compiling containers

**Input.** A scene.

**Algorithm.** A sequence puts the video of each child on a canvas of its own, with the time before
it held in a color, and joins them end to end; sound is joined alike. A parallel lays the videos of
its children over one canvas and mixes their sound. Adjacent margins collapse: only the greater of
two counts.

**Results.** `Scene.compile` gives the streams of a scene, or the first failure.
-/

namespace Montage

variable {τ π : Type} [Timescale τ] [PixelCount π]

/-- What a sequence has compiled so far: its segments, the time for which each kind of stream has been
absent, the margin that is still to be met, and whether an open child has ended it. -/
structure Playlist (τ : Type) where
  videos : List Pad
  audios : List Pad
  videoGap : τ
  audioGap : τ
  pending : τ
  endless : Bool

namespace Playlist

/-- Nothing has been compiled. -/
def start : Playlist τ :=
  ⟨[], [], 0, 0, 0, false⟩

/-- The margin before a child. -/
def lead (p : Playlist τ) (child : Style τ π) : τ :=
  Timescale.longer child.timeMarginStart.secondsOrZero p.pending

/-- Adds the video of a child, or the time for which there is none. -/
def addVideo (container child : Style τ π) (tag : Tag) (lead footprint : τ) (p : Playlist τ) :
    Option Pad → Compile τ π (Playlist τ)
  | none => pure { p with videoGap := p.videoGap + footprint }
  | some video => do
      let base ← Leaf.canvas tag container
      let (x, y) := layeredOffset container child
      Compile.counted [x, y]
      let placed ← Compile.join .video [base, video] (.overlay x y .shortest)
      let gap := p.videoGap + lead
      let color := Color.orTransparent container.backgroundColor
      let segment ←
        if 0 < gap then Compile.apply .video (.holdBefore gap color) placed else pure placed
      pure { p with videos := p.videos ++ [segment], videoGap := 0 }

/-- Adds the audio of a child, or the time for which there is none. -/
def addAudio (lead footprint : τ) (p : Playlist τ) : Option Pad → Compile τ π (Playlist τ)
  | none => pure { p with audioGap := p.audioGap + footprint }
  | some audio => do
      let gap := p.audioGap + lead
      let segment ← if 0 < gap then Compile.apply .audio (.delay gap) audio else pure audio
      pure { p with audios := p.audios ++ [segment], audioGap := 0 }

/-- Adds the streams of a child. -/
def add (container child : Style τ π) (tag : Tag) (p : Playlist τ) (s : Streams) :
    Compile τ π (Playlist τ) := do
  let lead := p.lead child
  let footprint := lead + child.paddedLength.secondsOrZero
  let p ← p.addVideo container child tag lead footprint s.video
  let p : Playlist τ ← p.addAudio lead footprint s.audio
  pure
    { p with
      pending := child.timeMarginEnd.secondsOrZero
      endless := child.objectLength.isFit }

/-- Joins segments of one kind end to end. -/
def concat (kind : StreamKind) : List Pad → Compile τ π (Option Pad)
  | [] => pure none
  | [p] => pure (some p)
  | pads => some <$> Compile.join kind pads (.concat pads.length kind)

/-- Fills up the end of the video of a sequence. -/
def closeVideo (container : Style τ π) (p : Playlist τ) (video : Pad) : Compile τ π Pad :=
  let rest := p.videoGap + p.pending
  if 0 < rest then
    Compile.apply .video (.holdAfter rest (Color.orTransparent container.backgroundColor)) video
  else
    pure video

/-- Fills up the end of the audio of a sequence. -/
def closeAudio (p : Playlist τ) (audio : Pad) : Compile τ π Pad :=
  let rest := p.audioGap + p.pending
  if 0 < rest then Compile.apply .audio (.padAfter rest) audio else pure audio

/-- The streams of a sequence, at the length that its style sets. -/
def finish (container : Style τ π) (p : Playlist τ) : Compile τ π Streams := do
  let video ← concat .video p.videos
  let audio ← concat .audio p.audios
  let s : Streams := ⟨video, audio⟩
  let s ← if p.endless then s.extend else s.mapM (p.closeVideo container) p.closeAudio
  match container.objectLength.seconds? with
  | some length => s.conform length container.backgroundColor
  | none => pure s

end Playlist

/-- What a parallel has compiled so far: its layers over each other, its tracks, and the flow of its
single layer. -/
structure Mixdown (π : Type) where
  video : Option Pad
  tracks : List Pad
  flow : Flow π

namespace Mixdown

/-- The lowest layer of a parallel: a canvas of its length, if it can be seen. -/
def ground (tag : Tag) (container : Style τ π) (visible : Bool) : Compile τ π (Option Pad) :=
  if visible then do
    let base ← Leaf.canvas tag container
    match container.objectLength.seconds? with
    | some length => some <$> Compile.apply .video (.trim .video length) base
    | none => pure (some base)
  else
    pure none

/-- A parallel before its first child. -/
def start (tag : Tag) (container : Style τ π) (visible : Bool) : Compile τ π (Mixdown π) := do
  let video ← ground tag container visible
  let flow := Flow.start container
  Compile.counted [flow.position]
  pure ⟨video, [], flow⟩

/-- The place of the next layer. -/
def place (container child : Style τ π) (m : Mixdown π) : (π × π) × Flow π :=
  match container.layerMode with
  | .single => m.flow.place child
  | .multi => (layeredOffset container child, m.flow)

/-- Adds the streams of a child. -/
def add (container child : Style τ π) (m : Mixdown π) (s : Streams) : Compile τ π (Mixdown π) := do
  let tracks := m.tracks ++ s.audio.toList
  match s.video with
  | none => pure { m with tracks }
  | some layer =>
      let ((x, y), flow) := m.place container child
      Compile.counted [flow.position, x, y]
      let video ← match m.video with
        | some base => Compile.join .video [base, layer] (.overlay x y .pass)
        | none => pure layer
      pure ⟨some video, tracks, flow⟩

/-- Sums tracks. -/
def mix : List Pad → Compile τ π (Option Pad)
  | [] => pure none
  | [p] => pure (some p)
  | pads => some <$> Compile.join .audio pads (.mix pads.length)

/-- The sound of a parallel at the length that its style sets. -/
def fill (container : Style τ π) (audio : Pad) : Compile τ π Pad :=
  match container.objectLength.seconds? with
  | some length => do
      let padded ← Compile.apply .audio (.padWhole length) audio
      Compile.apply .audio (.trim .audio length) padded
  | none => Compile.apply .audio .padForever audio

/-- The streams of a parallel. -/
def finish (container : Style τ π) (m : Mixdown π) : Compile τ π Streams := do
  let audio ← mix m.tracks
  let audio ← audio.mapM (fill container)
  pure ⟨m.video, audio⟩

end Mixdown

mutual

/-- The streams of a scene. -/
def compileScene : Scene τ π → Compile τ π Streams
  | .leaf tag kind locator style => Leaf.compile tag kind locator style
  | .container tag style items => do
      let s ← match style.order with
        | .sequence => do
            let p ← compileSequence tag style .start items
            p.finish style
        | .parallel => do
            let m ← Mixdown.start tag style (Scene.anyVideo items)
            let m ← compileParallel style m items
            m.finish style
      s.padded style

/-- Adds children to a sequence, up to the first that is open. -/
def compileSequence (tag : Tag) (container : Style τ π) :
    Playlist τ → List (Scene τ π) → Compile τ π (Playlist τ)
  | p, [] => pure p
  | p, item :: rest => do
      let s ← compileScene item
      let p ← p.add container item.style tag s
      if p.endless then pure p else compileSequence tag container p rest

/-- Adds children to a parallel. -/
def compileParallel (container : Style τ π) :
    Mixdown π → List (Scene τ π) → Compile τ π (Mixdown π)
  | m, [] => pure m
  | m, item :: rest => do
      let s ← compileScene item
      let s ← s.spaced item.style
      let m ← m.add container item.style s
      compileParallel container m rest

end

/-- The streams of a scene. -/
def Scene.compile (s : Scene τ π) : Compile τ π Streams :=
  compileScene s

end Montage
