import Montage.Json.Reader
import Montage.Media.Info

/-!
# Probe reports

The report that a probing program prints about a media file.

**Input.** A JSON text with the format and the streams of the file.

**Algorithm.** The report is a record whose known fields are read and whose other fields are
skipped. The first stream of each type counts.

**Results.** `MediaInfo.ofReport?` is what is known about the file.
-/

namespace Montage

/-- A stream of a report. -/
structure ReportedStream where
  codecType : Option String
  width : Option Nat
  height : Option Nat
  layout : Option String
  channels : Option Nat
  deriving Repr, DecidableEq

namespace ReportedStream

/-- A field that may be missing or null. -/
def field? {α : Type} (read : Json → Option α) : Option Json → Option (Option α)
  | none => some none
  | some j => Json.optional? read j

/-- Reads a stream. -/
def ofJson? (j : Json) : Option ReportedStream := do
  let names := ["codec_type", "width", "height", "channel_layout", "channels"]
  match ← j.record? false names with
  | [codecType, width, height, layout, channels] =>
      let codecType ← field? Json.string? codecType
      let width ← field? (Json.natBelow? UInt32.size) width
      let height ← field? (Json.natBelow? UInt32.size) height
      let layout ← field? Json.string? layout
      let channels ← field? (Json.natBelow? UInt32.size) channels
      some ⟨codecType, width, height, layout, channels⟩
  | _ => none

/-- The first stream of a type. -/
def firstOf (type : String) (streams : List ReportedStream) : Option ReportedStream :=
  streams.find? fun s => s.codecType == some type

/-- The frame size of a video stream, if it has one with positive sides. -/
def video? (s : ReportedStream) : Option VideoInfo := do
  let width ← s.width
  let height ← s.height
  if 0 < width ∧ 0 < height then some ⟨width, height⟩ else none

end ReportedStream

/-- A report: the duration as it is written, and the streams. -/
structure Report where
  duration : Option String
  streams : List ReportedStream
  deriving Repr, DecidableEq

namespace Report

/-- The duration in the description of the format. -/
def durationOfJson? (j : Json) : Option (Option String) := do
  match ← j.record? false ["duration"] with
  | [duration] => ReportedStream.field? Json.string? duration
  | _ => none

/-- Reads a report. -/
def ofJson? (j : Json) : Option Report := do
  match ← j.record? true ["format", "streams"] with
  | [format, streams] =>
      let duration ← match format with
        | none => some none
        | some format => durationOfJson? format
      let streams ← match streams with
        | none => some []
        | some streams => (← streams.array?).mapM ReportedStream.ofJson?
      some ⟨duration, streams⟩
  | _ => none

end Report

namespace MediaInfo

variable {τ : Type} [Timescale τ]

/-- A duration as it is written; what is no length of time counts as unknown. -/
def durationOfText? (s : String) : Option τ := do
  let literal ← Decimal.Literal.parse? (Text.trim s.toList)
  let d : τ ← Timescale.ofLiteral? literal
  if 0 ≤ d then some d else none

/-- What a report says. -/
def ofReport (r : Report) : MediaInfo τ where
  duration := r.duration.bind durationOfText?
  video := (ReportedStream.firstOf "video" r.streams).bind ReportedStream.video?
  audio := (ReportedStream.firstOf "audio" r.streams).map fun s => ⟨s.layout, s.channels⟩

/-- What the text of a report says. -/
def ofReport? (s : String) : Option (MediaInfo τ) := do
  let report ← (← Json.parse? s) |> Report.ofJson?
  some (ofReport report)

end MediaInfo
end Montage
