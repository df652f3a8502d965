import Montage.Compile.Film
import Montage.Output.Job
import Montage.Preview.Still
import Montage.Text.Shell

/-!
# Plans

A plan is the command that renders a film or a still, ready to be run.

**Input.** A film or a still, and a job.

**Algorithm.** The graph is first made to fit the format: animated pictures need a palette, and
sound that the format cannot hold is drained. Then the arguments are laid out: the inputs, the graph,
the streams to be kept, and the codecs.

**Results.** `Plan.ofFilm` and `Plan.ofStill`; `Plan.report` describes a plan in full.
-/

namespace Montage

/-- A command ready to be run, and what it will produce. -/
structure Plan (τ : Type) where
  output : Path
  arguments : List String
  frames : Nat
  duration : τ
  graph : String

namespace Film

variable {τ π : Type}

/-- Reduces a video to a palette of its own. -/
def withPalette (g : Graph (Filter τ π)) (video : Pad) : Pad × Graph (Filter τ π) :=
  let ((frames, sample), g) := g.fork .video .video [video] (.split .video)
  let (palette, g) := g.join .video [sample] .makePalette
  g.join .video [frames, palette] .usePalette

/-- The film with the palette that its format needs. -/
def reduced (format : FileFormat) (f : Film τ π) : Film τ π :=
  match format, f.video with
  | .gif, some video =>
      let (video, graph) := withPalette f.graph video
      { f with graph, video := some video }
  | _, _ => f

/-- The film without the sound that its format cannot hold. -/
def muted (format : FileFormat) (f : Film τ π) : Film τ π :=
  match format.hasAudio, f.audio with
  | false, some audio => { f with graph := f.graph.sink audio (.sink .audio), audio := none }
  | _, _ => f

/-- The film as a format can hold it. -/
def fitted (format : FileFormat) (f : Film τ π) : Film τ π :=
  (f.reduced format).muted format

end Film

namespace FileFormat

/-- The options for the video of a format, up to the bit rate. -/
def videoCodec : FileFormat → List String
  | mp4h264 =>
      ["-c:v", "libx264", "-preset", "medium", "-profile:v", "high", "-pix_fmt", "yuv420p", "-b:v"]
  | mp4h265 => ["-c:v", "libx265", "-preset", "medium", "-pix_fmt", "yuv420p", "-b:v"]
  | webm => ["-c:v", "libvpx-vp9", "-pix_fmt", "yuva420p", "-b:v"]
  | gif => []

/-- The options for the audio of a format, up to the bit rate. -/
def audioCodec : FileFormat → List String
  | mp4h264 => ["-c:a", "aac", "-b:a"]
  | mp4h265 => ["-c:a", "aac", "-b:a"]
  | webm => ["-c:a", "libopus", "-b:a"]
  | gif => []

/-- The options for the container of a format. -/
def container : FileFormat → List String
  | mp4h264 => ["-movflags", "+faststart"]
  | mp4h265 => ["-movflags", "+faststart"]
  | _ => []

end FileFormat

namespace Job

/-- The options for a codec with its bit rate, of which there is a least one. -/
def codec (options : List String) (bitrate least : Nat) : List String :=
  if options.isEmpty then [] else options ++ [(max bitrate least).repr ++ "k"]

/-- The options for the streams that a film has. -/
def codecs (j : Job) (hasVideo hasAudio : Bool) : List String :=
  (if hasVideo then codec j.format.videoCodec j.videoBitrate 1000 else [])
    ++ (if hasAudio then codec j.format.audioCodec j.audioBitrate 64 else [])
    ++ j.format.container

/-- The options that every command begins with. -/
def opening (j : Job) : List String :=
  ["-hide_banner", "-nostats", "-progress", "pipe:1", if j.overwrite then "-y" else "-n"]

/-- The options for the inputs and the graph. -/
def graphOptions (j : Job) (g : Graph Invocation) : List String :=
  j.opening ++ g.inputs.flatMap Input.arguments ++ ["-filter_complex", g.text]

end Job

/-- The option that keeps the stream of a pad. -/
def Pad.kept (p : Pad) : List String :=
  ["-map", mapLabel p.label]

namespace Plan

variable {τ π : Type} [Timescale τ] [PixelCount π]

/-- The options that keep the streams of a film. -/
def streamOptions (f : Film τ π) : List String :=
  (match f.video with
    | some video => video.kept ++ ["-r", Timescale.text f.frame.fps]
    | none => [])
    ++ match f.audio with
      | some audio => audio.kept
      | none => []

/-- The plan for a film. -/
def ofFilm (j : Job) (f : Film τ π) : Plan τ :=
  let film := f.fitted j.format
  let graph := film.graph.map Filter.invocation
  { output := j.output
    arguments :=
      j.graphOptions graph ++ streamOptions film ++ ["-t", Timescale.text f.duration]
        ++ j.codecs film.video.isSome film.audio.isSome ++ [j.output.text]
    frames := f.totalFrames
    duration := f.duration
    graph := graph.lines }

/-- The plan for a still. -/
def ofStill (j : Job) (s : Still τ π) : Plan τ :=
  let graph := s.graph.map Filter.invocation
  { output := j.output
    arguments := j.graphOptions graph ++ s.video.kept ++ ["-frames:v", "1", j.output.text]
    frames := 1
    duration := 0
    graph := graph.lines }

/-- The arguments on one line. -/
def commandLine (p : Plan τ) : String :=
  String.ofList (Shell.line (p.arguments.map String.toList))

/-- The description of a plan that was made at the moment `stamp`. -/
def report (p : Plan τ) (stamp : String) : String :=
  s!"generated={stamp}\nduration_secs={(Timescale.exact p.duration).places 3}\n"
    ++ s!"frames={p.frames.repr}\nffmpeg_args={p.commandLine}\n\n"
    ++ s!"filter_complex:\n{p.graph}\n"

end Plan
end Montage
