import Montage.Config
import Montage.Failure
import Montage.Output.Format

/-!
# Jobs

What is to be done with a document: where its film is written, and how.

**Input.** The path of the output, and the defaults of the configuration.

**Algorithm.** The extension of the path decides the format; the configuration decides it only for
paths that tell none.

**Results.** `Job.ofDefaults` fails only for a configured format that is unknown and needed.
-/

namespace Montage

/-- What is to be done with a document. Bit rates are in thousands a second. -/
structure Job where
  output : Path
  format : FileFormat
  overwrite : Bool
  dryRun : Bool
  sampleRate : Nat
  videoBitrate : Nat
  audioBitrate : Nat
  renderer : String
  deriving Repr, DecidableEq

namespace Job

/-- The format of an output: by its extension, else by the defaults. -/
def formatOf (output : Path) (defaults : RenderDefaults) : Except Failure FileFormat :=
  match FileFormat.ofPath? output with
  | some format => .ok format
  | none =>
      match FileFormat.ofName? defaults.format with
      | some format => .ok format
      | none => .error (.unknownFormat defaults.format)

/-- The job of writing a film to a path that is still free. -/
def ofDefaults (output : Path) (defaults : RenderDefaults) : Except Failure Job := do
  let format ← formatOf output defaults
  .ok
    { output, format
      overwrite := false
      dryRun := false
      sampleRate := defaults.sampleRate
      videoBitrate := defaults.videoBitrate
      audioBitrate := defaults.audioBitrate
      renderer := defaults.renderer }

end Job
end Montage
