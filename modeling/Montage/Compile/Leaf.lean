import Montage.Compile.Streams
import Montage.Scene.Basic

/-!
# Compiling leaves

**Input.** A leaf with its style.

**Algorithm.** The video of media is scaled, brought to the frame rate, and put on a canvas if the
leaf has paddings; text is drawn on a canvas. The audio of media is brought to two channels at its
volume; a video without sound gets silence. Both are then cut to the length of the leaf.

**Results.** `Leaf.compile` gives the streams of a leaf.
-/

namespace Montage
namespace Leaf

variable {τ π : Type} [Timescale τ] [PixelCount π]

/-- The padded canvas of a node. -/
def canvas (tag : Tag) (style : Style τ π) : Compile τ π Pad :=
  Compile.canvas tag style.paddedWidth style.paddedHeight style.backgroundColor

/-- The picture of media in its box, with the paddings around it. -/
def pictureOf (tag : Tag) (style : Style τ π) (video : Pad) : Compile τ π Pad := do
  let video ←
    if style.needsResize then
      Compile.apply .video (.scale style.width.pixels? style.height.pixels?) video
    else
      pure video
  let video ← Compile.apply .video .squarePixels video
  let w ← get
  let video ← Compile.apply .video (.frameRate w.frame.fps) video
  if style.padding.isZero then
    pure video
  else
    let base ← canvas tag style
    let x := style.padding.left.pixelsOr 0
    let y := style.padding.top.pixelsOr 0
    Compile.join .video [base, video] (.overlay x y .shortest)

/-- Text drawn on a canvas. -/
def drawing (tag : Tag) (style : Style τ π) (text : String) : Compile τ π Pad := do
  let base ← canvas tag style
  let x := style.padding.left.pixelsOr 0
  let y := style.padding.top.pixelsOr 0
  Compile.apply .video (.drawText text x y style.face) base

/-- One channel on both sides. -/
def doubled (audio : Pad) : Compile τ π Pad := do
  let (left, right) ← Compile.split .audio audio
  Compile.join .audio [left, right] .mergeChannels

/-- The sound of media: its channels, its volume, and a common format. -/
def soundOf (style : Style τ π) (audio : Pad) : Compile τ π Pad := do
  let audio ← match style.source.audioSystem, style.audioSystem with
    | some .monaural, _ => doubled audio
    | some .stereo, some .monaural => do
        let mono ← Compile.apply .audio .downmix audio
        doubled mono
    | _, _ => pure audio
  let audio ← match (Filter.ofVolume? style.audioVolume : Option (Filter τ π)) with
    | some volume => Compile.apply .audio volume audio
    | none => pure audio
  let w ← get
  Compile.apply .audio (.normalize w.sampleRate) audio

/-- The sound of a leaf of media; a video without sound is silent. -/
def sound (kind : MediaKind) (style : Style τ π) (audio : Option Pad) :
    Compile τ π (Option Pad) := do
  match audio with
  | some audio => some <$> soundOf style audio
  | none =>
      if kind = .video then do
        let w ← get
        some <$> Compile.join .audio [] (.silence w.sampleRate)
      else
        pure none

/-- The streams of a leaf at their natural length. -/
def natural (tag : Tag) (kind : MediaKind) (locator : Locator) (style : Style τ π) :
    Compile τ π Streams :=
  match kind, locator with
  | .text, locator => do
      let text := match locator with
        | .text s => s
        | .path _ => ""
      let video ← drawing tag style text
      pure ⟨some video, none⟩
  | _, .text _ => throw (.schema (.noMediaPath tag))
  | kind, .path path => do
      let wantAudio := kind.hasAudio && style.source.hasAudio
      let (video, audio) ← Compile.source path kind kind.hasVideo wantAudio
      let video ← video.mapM (pictureOf tag style)
      let audio ← sound kind style audio
      pure ⟨video, audio⟩

/-- Whether media end before the length of a leaf, by more than a millionth of a second. -/
def runsShort (kind : MediaKind) (style : Style τ π) (length : τ) : Bool :=
  match kind.hasDuration, style.source.duration with
  | true, some duration => decide (duration + 1e-6 < length)
  | _, _ => false

/-- Cuts the streams to the length of a leaf, after filling up what is missing. An open leaf repeats
its media; pictures and text last anyway. -/
def cut (kind : MediaKind) (style : Style τ π) (s : Streams) : Compile τ π Streams :=
  match style.objectLength with
  | .seconds length => do
      let s ← if runsShort kind style length then s.extend else pure s
      s.apply (.trim .video length) (.trim .audio length)
  | .fit => if kind.hasDuration then s.apply (.loop .video) (.loop .audio) else pure s
  | _ => pure s

/-- The streams of a leaf with its paddings in time. -/
def compile (tag : Tag) (kind : MediaKind) (locator : Locator) (style : Style τ π) :
    Compile τ π Streams := do
  let s ← natural tag kind locator style
  let s ← cut kind style s
  s.padded style

end Leaf
end Montage
