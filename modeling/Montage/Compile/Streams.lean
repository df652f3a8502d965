import Montage.Compile.Workshop

/-!
# Streams of a node

Every node is compiled to at most one video and one audio stream.

**Input.** The streams of a node, and times.

**Algorithm.** Both streams are changed alike: a video is held on a color or on its last frame, an
audio is filled with silence.

**Results.** Whatever is done to both streams keeps them in step.
-/

namespace Montage

/-- The compiled streams of a node. -/
structure Streams where
  video : Option Pad
  audio : Option Pad
  deriving Repr, DecidableEq

namespace Streams

variable {τ π : Type}

/-- Changes the streams that are there. -/
def mapM (s : Streams) (onVideo onAudio : Pad → Compile τ π Pad) : Compile τ π Streams := do
  let video ← s.video.mapM onVideo
  let audio ← s.audio.mapM onAudio
  pure ⟨video, audio⟩

/-- Puts one filter after each stream that is there. -/
def apply (s : Streams) (onVideo onAudio : Filter τ π) : Compile τ π Streams :=
  s.mapM (Compile.apply .video onVideo) (Compile.apply .audio onAudio)

variable [Timescale τ]

/-- Holds a color and silence before the content. -/
def delay (t : τ) (color : Option Color) (s : Streams) : Compile τ π Streams :=
  if t ≤ 0 then pure s else s.apply (.holdBefore t (Color.orTransparent color)) (.delay t)

/-- Holds a color and silence after the content. -/
def append (t : τ) (color : Option Color) (s : Streams) : Compile τ π Streams :=
  if t ≤ 0 then pure s else s.apply (.holdAfter t (Color.orTransparent color)) (.padAfter t)

/-- Makes both streams last exactly the given time. -/
def conform (t : τ) (color : Option Color) (s : Streams) : Compile τ π Streams :=
  s.mapM
    (fun v => do
      let padded ← Compile.apply .video (.holdAfter t (Color.orTransparent color)) v
      Compile.apply .video (.trim .video t) padded)
    (fun a => do
      let padded ← Compile.apply .audio (.padWhole t) a
      Compile.apply .audio (.trim .audio t) padded)

/-- Repeats the last frame and adds silence without end. -/
def extend (s : Streams) : Compile τ π Streams :=
  s.apply .holdLast .padForever

/-- Holds the paddings of a style around the content. An open content has no end to pad. -/
def padded (style : Style τ π) (s : Streams) : Compile τ π Streams := do
  let s ← s.delay style.timePaddingStart.secondsOrZero style.backgroundColor
  if style.objectLength.isFit then
    pure s
  else
    s.append style.timePaddingEnd.secondsOrZero style.backgroundColor

/-- Holds the margins of a style around the content. An open content has no end to hold. -/
def spaced (style : Style τ π) (s : Streams) : Compile τ π Streams := do
  let s ← s.delay style.timeMarginStart.secondsOrZero none
  if style.objectLength.isFit then
    pure s
  else
    s.append style.timeMarginEnd.secondsOrZero none

end Streams
end Montage
