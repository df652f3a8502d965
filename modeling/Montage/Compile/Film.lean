import Montage.Compile.Scene

/-!
# Films

A scene compiled as a whole.

**Input.** A scene whose length is known, and the frame of its document.

**Algorithm.** The streams of the scene are put on a canvas of the frame's size, held over the
margins of the scene, and joined into a pair that runs together. Then all spares are drained.

**Results.** `Film.ofScene` gives the graph and the pads of the film.
-/

namespace Montage

/-- A finished graph, the pads of the film, and its length with all margins. -/
structure Film (τ π : Type) where
  graph : Graph (Filter τ π)
  video : Option Pad
  audio : Option Pad
  frame : Frame τ
  duration : τ

namespace Film

variable {τ π : Type} [Timescale τ] [PixelCount π]

/-- The number of frames that cover a time. -/
def framesIn (frame : Frame τ) (t : τ) : Nat :=
  (Timescale.exact (t * frame.fps)).ceilWithin (UInt64.size - 1)

/-- The number of frames of a film. -/
def totalFrames (f : Film τ π) : Nat :=
  framesIn f.frame f.duration

/-- A canvas of the frame's size. -/
def screen (tag : Tag) (resolution : Resolution) (color : Option Color) : Compile τ π Pad :=
  Compile.canvas tag (.pixel (PixelCount.ofInt resolution.width))
    (.pixel (PixelCount.ofInt resolution.height)) color

/-- A video on the screen, at its margins. -/
def onScreen (root : Scene τ π) (resolution : Resolution) (video : Pad) : Compile τ π Pad := do
  let style := root.style
  let base ← screen root.tag resolution style.backgroundColor
  let x := style.margin.left.pixelsOr 0
  let y := style.margin.top.pixelsOr 0
  Compile.join .video [base, video] (.overlay x y .shortest)

/-- The streams of a whole document. -/
def streams (root : Scene τ π) (resolution : Resolution) : Compile τ π Streams := do
  let style := root.style
  let s ← root.compile
  let video ← s.video.mapM (onScreen root resolution)
  let s : Streams := ⟨video, s.audio⟩
  let s ← s.delay style.timeMarginStart.secondsOrZero style.backgroundColor
  let s ← s.append style.timeMarginEnd.secondsOrZero style.backgroundColor
  match s.video, s.audio with
  | some video, some audio => do
      let (video, audio) ← Compile.pair video audio
      pure ⟨some video, some audio⟩
  | none, none => throw .noStream
  | video, audio => pure ⟨video, audio⟩

/-- The film of a scene. -/
def ofScene (root : Scene τ π) (frame : Frame τ) (sampleRate : Nat) :
    Except Failure (Film τ π) :=
  if root.style.objectLength.isFit then
    .error (.unresolved root.tag .objectLength)
  else do
    let (s, w) ← streams root frame.resolution (.start frame sampleRate)
    .ok ⟨w.finish, s.video, s.audio, frame, root.style.footprintLength.secondsOrZero⟩

end Film
end Montage
