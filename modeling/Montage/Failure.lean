import Montage.Decimal.Exact
import Montage.Markup.Schema
import Montage.Measure.Calculation
import Montage.Media.Info
import Montage.Path
import Montage.Sheet.Basic

/-!
# Failures

Everything that can stop a document on its way from text to film.

**Input.** The cause of a failure.

**Algorithm.** One constructor a cause, and one function for the wording.

**Results.** `Failure.message` is the text shown to the author of a document.
-/

namespace Montage

/-- Why a media file could not be probed. -/
inductive ProbeFault where
  | missing (part : MissingPart) (kind : MediaKind)
  | notStarted (binary reason : String)
  | stopped (binary status output : String)
  | badReport
  | refused (reason : String)
  deriving Repr, DecidableEq

namespace ProbeFault

/-- The word for a kind of media inside a message. -/
def kindName : MediaKind → String
  | .video => "Video"
  | .audio => "Audio"
  | .image => "Image"
  | .text => "Text"

/-- The wording of a fault; there is none for a report that cannot be read. -/
def message? : ProbeFault → Option String
  | missing part kind => some s!"no {part.name} found for <{kindName kind}> source"
  | notStarted binary reason => some s!"failed to start {binary}: {reason}"
  | stopped binary status output => some s!"{binary} exited with {status}: {output}"
  | badReport => none
  | refused reason => some reason

end ProbeFault

/-- The properties that have to be concrete before a document can be compiled. -/
inductive Dimension where
  | objectLength
  | width
  | height
  deriving Repr, DecidableEq

namespace Dimension

/-- The name of a property. -/
def name : Dimension → String
  | objectLength => "object-length"
  | width => "width"
  | height => "height"

end Dimension

/-- Why a document has no film. -/
inductive Failure where
  | schema (fault : SchemaFault)
  | sheet (error : SheetError)
  | sheetFile (path : Path) (reason : String)
  | probe (path : Path) (fault : ProbeFault)
  | unresolved (tag : Tag) (property : Dimension)
  | noStream
  | emptyCanvas (tag : Tag) (width height : Int)
  | pastEnd (frame : Nat) (second total : Decimal.Exact)
  | noPicture (tag : Tag)
  | outputExists (path : Path)
  | renderNotStarted (binary reason : String)
  | renderStopped (status output : String)
  | unknownFormat (text : String)
  | fileNotFound (path : Path)
  | noBackend (binary : String)
  | system (reason : String)
  | mishap (calculation : Calculation)
  deriving Repr, DecidableEq

namespace Failure

/-- The wording of an unknown output format. -/
def unknownFormatMessage (text : String) : String :=
  s!"unknown output format '{text}' (expected mp4-h264, mp4-h265, webm or gif)"

/-- The wording of a failure. -/
def message : Failure → String
  | schema fault => "Schema violation: " ++ fault.message
  | sheet error => "Stylesheet error: " ++ error.message
  | sheetFile path reason => s!"Stylesheet error: cannot read {path.text}: {reason}"
  | probe path fault =>
      let front := s!"Source probe failed for {path.text}"
      match fault.message? with
      | some text => front ++ ": " ++ text
      | none => front
  | unresolved tag property =>
      s!"Unresolved {property.name} on <{tag.name}>: a concrete value is required"
  | noStream => "Document produces neither a video nor an audio stream"
  | emptyCanvas tag width height =>
      s!"Render error: <{tag.name}> needs a canvas of {width.repr}x{height.repr}, which is empty"
  | pastEnd frame second total =>
      let second := second.places 3
      let total := total.places 3
      s!"Render error: frame {frame.repr} ({second}s) is past the end of the document ({total}s)"
  | noPicture tag => s!"Render error: <{tag.name}> has no video to preview"
  | outputExists path =>
      s!"Render error: {path.text} already exists (pass overwrite to replace it)"
  | renderNotStarted binary reason => s!"Render error: Failed to start {binary}: {reason}"
  | renderStopped status output =>
      s!"Render error: ffmpeg render failed (status {status}): {output}"
  | unknownFormat text => "Configuration error: " ++ unknownFormatMessage text
  | fileNotFound path => s!"File not found: {path.text}"
  | noBackend binary =>
      s!"Unsupported operation: No supported render backend found (expected {binary} in PATH)"
  | system reason => reason
  | mishap calculation => calculation.message

end Failure
end Montage
