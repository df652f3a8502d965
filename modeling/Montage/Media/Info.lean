import Montage.Style.Basic
import Montage.Tag

/-!
# Media

What is known about a media file: its duration and its first streams.

**Input.** The streams that were found in a file.

**Algorithm.** A leaf requires the streams that its kind of media shows or plays.

**Results.** `MediaInfo.facts` gives the facts for a leaf's style, or names what is missing.
-/

namespace Montage

/-- A video stream. -/
structure VideoInfo where
  width : Nat
  height : Nat
  deriving Repr, DecidableEq

/-- An audio stream. -/
structure AudioInfo where
  layout : Option String
  channels : Option Nat
  deriving Repr, DecidableEq

/-- What is known about a media file. -/
structure MediaInfo (τ : Type) where
  duration : Option τ
  video : Option VideoInfo
  audio : Option AudioInfo
  deriving Repr

/-- What a file lacks for a leaf. -/
inductive MissingPart where
  | duration
  | video
  | audio
  deriving Repr, DecidableEq

namespace MissingPart

/-- The word for what is missing. -/
def name : MissingPart → String
  | duration => "duration"
  | video => "video stream"
  | audio => "audio stream"

end MissingPart

namespace MediaInfo

variable {τ π : Type} [PixelCount π]

/-- The first part that a leaf of a kind requires and a file lacks. -/
def missing? (m : MediaInfo τ) : MediaKind → Option MissingPart
  | .video =>
      if m.duration.isNone then some .duration
      else if m.video.isNone then some .video
      else none
  | .audio =>
      if m.duration.isNone then some .duration
      else if m.audio.isNone then some .audio
      else none
  | .image => if m.video.isNone then some .video else none
  | .text => none

/-- The facts for a leaf of a kind. -/
def facts (m : MediaInfo τ) (kind : MediaKind) : Except MissingPart (SourceFacts τ π) :=
  match m.missing? kind with
  | some part => .error part
  | none =>
      .ok
        { duration := if kind.hasDuration then m.duration else none
          width := m.video.map fun v => PixelCount.ofInt v.width
          height := m.video.map fun v => PixelCount.ofInt v.height
          hasAudio := m.audio.isSome
          audioSystem := m.audio.bind fun a => AudioSystem.ofChannels? a.layout a.channels }

end MediaInfo
end Montage
