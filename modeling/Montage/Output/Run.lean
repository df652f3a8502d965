import Montage.Host
import Montage.Measure.Word
import Montage.Output.Plan
import Montage.Output.Progress

/-!
# Running plans

**Input.** A scene with its frame, a job, and a listener to the progress.

**Algorithm.** The scene is compiled and its plan laid out. The plan is described in a file beside
the output; then the rendering program is run, and its progress passed on to the listener.

**Results.** `Job.renderFilm` and `Job.renderStill` give the plan and its description, or the first
failure.
-/

namespace Montage
namespace Job

variable {m : Type → Type} [Monad m] [Host m]

/-- Describes a plan in a file beside the output. It does not matter if this fails. -/
def describe (p : Plan Float) (report : String) : m Unit := do
  let _ ← Host.writeText (p.output.withExtension "ffmpeg-debug.txt") report
  pure ()

/-- Creates the directory of the output. -/
def makeRoom (j : Job) : ExceptT Failure m Unit :=
  match j.output.parent? with
  | none => pure ()
  | some directory =>
      if directory.text.isEmpty then
        pure ()
      else
        Host.attempt (Host.createDirectories directory)

/-- Runs the rendering program, telling its progress. -/
def run (j : Job) (p : Plan Float) (tell : Progress → m Unit) : ExceptT Failure m Unit := do
  match ← (Host.run j.renderer p.arguments : m (Except String Exit)) with
  | .error reason => throw (.renderNotStarted j.renderer reason)
  | .ok e => do
      for progress in Progress.ofOutput p.frames p.duration e.output do
        tell progress
      if e.isSuccess then
        tell (.atStage .complete 1.0 p.frames)
      else
        tell (.atStage .failed 0.0 p.frames)
        throw (.renderStopped e.status e.complaint)

/-- Carries a plan out, unless the job asks for its description only. -/
def execute (j : Job) (p : Plan Float) (report : String) (tell : Progress → m Unit) :
    ExceptT Failure m Unit := do
  j.makeRoom
  if j.dryRun then
    (describe p report : m Unit)
  else
    let taken ← (Host.isThere j.output : m Bool)
    if !j.overwrite && taken then
      throw (.outputExists j.output)
    else
      (describe p report : m Unit)
      let available ← (Host.isAvailable j.renderer : m Bool)
      if available then j.run p tell else throw (.noBackend j.renderer)

/-- Renders a scene to a film. -/
def renderFilm (j : Job) (root : Scene Float Word) (frame : Frame Float)
    (tell : Progress → m Unit) : ExceptT Failure m (Plan Float × String) := do
  tell (.atStage .preparing 0.0 0)
  let film ← ExceptT.mk (pure (Film.ofScene root frame j.sampleRate))
  let plan := Plan.ofFilm j film
  let stamp ← (Host.stamp : m String)
  let report := plan.report stamp
  j.execute plan report tell
  pure (plan, report)

/-- Renders one frame of a scene to a picture. -/
def renderStill (j : Job) (root : Scene Float Word) (frame : Frame Float) (index : Nat) :
    ExceptT Failure m (Plan Float × String) := do
  let still ← ExceptT.mk (pure (Still.ofScene root frame index))
  let plan := Plan.ofStill j still
  let stamp ← (Host.stamp : m String)
  let report := plan.report stamp
  j.execute plan report fun _ => pure ()
  pure (plan, report)

end Job
end Montage
