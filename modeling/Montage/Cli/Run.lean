import Montage.Cli.Arguments
import Montage.Cli.Outline
import Montage.ConfigStore
import Montage.Listing.Scene
import Montage.Markup.File
import Montage.Media.Prober
import Montage.Output.Run

/-!
# The program

What the program does for each request, on any host.

**Input.** The arguments of the program.

**Algorithm.** The configuration is loaded and the log is opened; then the request is carried out.
Whatever goes wrong is told once, at the end. A calculation that stops the program has an exit code of
its own.

**Results.** `Cli.respond` gives the exit code.
-/

namespace Montage
namespace Cli

/-- Why a request was not carried out. -/
inductive Trouble where
  | unknownFormat (text : String)
  | reading (document : Path) (cause : Failure)
  | building (document : Path) (cause : Failure)
  | failure (cause : Failure)
  deriving Repr, DecidableEq

namespace Trouble

/-- The wording of a trouble. -/
def message : Trouble → String
  | unknownFormat text => Failure.unknownFormatMessage text
  | reading document cause => s!"Failed to read {document.text}: {cause.message}"
  | building document cause => s!"Failed to build {document.text}: {cause.message}"
  | failure cause => cause.message

/-- The calculation that has stopped the program, if that is the trouble. -/
def mishap? : Trouble → Option Calculation
  | building _ (.mishap calculation) => some calculation
  | failure (.mishap calculation) => some calculation
  | _ => none

end Trouble

/-- A format that is asked for by its name. -/
def formatOfName (name : String) : Except Trouble FileFormat :=
  match FileFormat.ofName? name with
  | some format => .ok format
  | none => .error (.unknownFormat name)

/-- The path of a film: the one that is asked for, or that of the document with the extension of the
format. -/
def outputPath (defaults : RenderDefaults) (document : Path) (output : Option Path)
    (format : Option FileFormat) : Except Trouble Path :=
  match output with
  | some output => .ok output
  | none => do
      let format ← match format with
        | some format => .ok format
        | none => formatOfName defaults.format
      .ok (document.withExtension format.extension)

/-- The job of rendering a document. A format that is asked for wins over all others. -/
def filmJob (defaults : RenderDefaults) (document : Path) (output : Option Path)
    (format : Option String) (overwrite dryRun : Bool) : Except Trouble Job := do
  let format ← format.mapM formatOfName
  let output ← outputPath defaults document output format
  let job ← (Job.ofDefaults output defaults).mapError Trouble.failure
  .ok { job with format := format.getD job.format, overwrite, dryRun }

/-- The job of rendering one frame of a document. -/
def stillJob (defaults : RenderDefaults) (output : Path) : Except Trouble Job := do
  let job ← (Job.ofDefaults output defaults).mapError Trouble.failure
  .ok { job with overwrite := true }

/-- The frame size and rate in words. -/
def frameText (f : Frame Float) : String :=
  s!"{f.resolution.text} @ {Decimal.plainText f.fps}fps"

/-- A number with the given number of places. -/
def fixed (places : Nat) (x : Float) : String :=
  (Decimal.Exact.ofFloat x).places places

/-- A report of progress, written over the last one. -/
def progressText (p : Progress) (elapsed : Float) : String :=
  let left := Progress.remaining p.share elapsed
  s!"\r  Progress: {fixed 1 (p.share * 100.0)}% ({p.frames.repr}/{p.total.repr} frames, "
    ++ s!"ETA: {fixed 0 left}s)  "

variable {m : Type → Type} [Monad m] [Host m]

/-- Requests that are carried out on a host. -/
abbrev Action (m : Type → Type) :=
  ExceptT Trouble m

/-- Writes to the output. -/
def say (s : String) : Action m Unit :=
  ExceptT.lift (Host.print s)

/-- Gives the cause of a failure a place in the request. -/
def because {α : Type} (place : Failure → Trouble) (action : ExceptT Failure m α) : Action m α :=
  ExceptT.mk ((Except.mapError place) <$> action.run)

/-- The scene of a document file, and its frame. -/
def load (config : Config) (document : Path) :
    Action m (Scene Float Word × Frame Float) := do
  let d ← because (.reading document) (Document.ofFile document)
  let root ← because (.building document) (d.sceneWith config.render.prober)
  pure (root, d.frame)

/-- Passes progress on to the output. -/
def showProgress (p : Progress) : m Unit := do
  let elapsed ← match p.stage with
    | .rendering => Host.elapsed
    | .finalizing => Host.elapsed
    | _ => pure 0.0
  Host.print (progressText p elapsed)

/-- Renders a document to a film. -/
def render (config : Config) (document : Path) (job : Job) : Action m Unit := do
  say s!"Rendering document: {document.text}\n"
  let (root, frame) ← load config document
  say (s!"  Output: {job.output.text}\n  Format: {job.format.name}\n"
    ++ s!"  Resolution: {frameText frame}\n")
  let (plan, report) ← because .failure (job.renderFilm root frame showProgress)
  if job.dryRun then
    say (s!"  Duration: {fixed 3 plan.duration}s ({plan.frames.repr} frames)\n"
      ++ s!"\n{report}\n")
  else
    say s!"\nRender complete: {job.output.text}\n"

/-- Renders one frame of a document to a picture. -/
def preview (config : Config) (document : Path) (index : Nat) (output : Path) :
    Action m Unit := do
  let (root, frame) ← load config document
  let job ← ExceptT.mk (pure (stillJob config.render output))
  let _ ← because .failure (job.renderStill root frame index)
  say s!"Frame {index.repr} written to {job.output.text}\n"

/-- Prints the scene of a document. -/
def inspect (config : Config) (document : Path) (json : Bool) : Action m Unit := do
  let (root, frame) ← load config document
  if json then
    say (root.toJson.pretty ++ "\n")
  else
    say (s!"Document: {document.text}\n  Resolution: {frameText frame}\n"
      ++ s!"  Nodes: {root.size.repr}\n\n"
      ++ String.join (root.outline.map fun line => line ++ "\n"))

/-- Prints whether a program can be found; the answer is the same. -/
def checkProgram (role binary : String) : Action m Bool := do
  let available ← (Host.isAvailable binary : m Bool)
  if available then
    say s!"[OK] {role}: {binary}\n"
  else
    say s!"[MISSING] {role}: {binary} not found in PATH\n"
  pure available

/-- Prints whether all is there that the program needs. -/
def check (config : Config) : Action m Unit := do
  say ("Clipweave System Check\n" ++ String.ofList (List.replicate 50 '=') ++ "\n")
  let renderer ← checkProgram "ffmpeg" config.render.renderer
  let prober ← checkProgram "ffprobe" config.render.prober
  let path ← (Config.path : m Path)
  say s!"\nConfig file: {path.text}\nDefault format: {config.render.format}\n\n"
  if renderer && prober then
    say "All required tools are available. Clipweave is ready.\n"
  else
    say ("Some required tools are missing. Install ffmpeg or set the binary paths in the config "
      ++ "file.\n")

/-- Carries a request out. -/
def carryOut (config : Config) : Request → Action m Unit
  | .render document output format overwrite dryRun => do
      let job ← ExceptT.mk
        (pure (filmJob config.render document output format overwrite dryRun))
      render config document job
  | .preview document index output => preview config document index output
  | .inspect document json => inspect config document json
  | .check => check config

/-- The configuration of a command line; a verbose one logs more. -/
def configOf (c : CommandLine) : m Config := do
  let path ← match c.config with
    | some path => pure path
    | none => Config.path
  let config ← Config.load path
  if c.verbose then
    pure { config with logging := { config.logging with level := "debug" } }
  else
    pure config

/-- Opens the log; that it cannot be opened is told and does not matter otherwise. -/
def startLog (settings : LogSettings) : m Unit := do
  match ← Host.openLog settings, settings.file with
  | .error reason, some file => Host.warn s!"Failed to open log file {file.text}: {reason}\n"
  | _, _ => pure ()

/-- Carries a command line out; the answer is the exit code. -/
def runLine (c : CommandLine) : m Nat := do
  let config ← configOf c
  startLog config.logging
  match ← (carryOut config c.request).run with
  | .ok () => pure 0
  | .error trouble =>
      match trouble.mishap? with
      | some calculation => do
          Host.warn s!"{calculation.message}\n"
          pure 101
      | none => do
          Host.warn s!"Error: {trouble.message}\n"
          pure 1

/-- How the program is used. -/
def usageText : String :=
  "Usage: clipweave [--verbose] [--config <CONFIG>] <render|preview|inspect|check> ...\n"

/-- The whole program: from its arguments to its exit code. -/
def respond (args : List String) : m Nat :=
  match CommandLine.parse args with
  | .ok c => runLine c
  | .error .version => do
      Host.print "clipweave 0.1.0\n"
      pure 0
  | .error .help => do
      Host.print usageText
      pure 0
  | .error .misuse => do
      Host.warn usageText
      pure 2

end Cli
end Montage
