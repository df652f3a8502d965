import Montage.Json.Value
import Montage.Output.Plan
import Montage.Output.Progress

/-!
# Listed films

What a scene is compiled to, as data: films, stills, visible parts, and what is done with them.

**Input.** The results of compiling a scene, jobs, plans and reports of progress.

**Algorithm.** Records whose fields stand in a fixed order. A graph is listed as its text, its inputs
and its size.

**Results.** A function `toJson` for each of these.
-/

namespace Montage

variable {π : Type} [PixelCount π]

namespace Pad

/-- The label of a pad, if there is one. -/
def listed (p : Option Pad) : Json :=
  .ofOption (fun p => .string p.label) p

end Pad

namespace Graph

/-- The record of a graph. -/
def toJson (g : Graph Invocation) : Json :=
  .object
    [("filter_complex", .string g.text),
      ("inputs", .array (g.inputs.map fun i => .array (i.arguments.map .string))),
      ("nodes", .ofNat g.size)]

/-- The record of a graph of filters, each as it is called. -/
def listed (g : Graph (Filter Float π)) : Json :=
  (g.map Filter.invocation).toJson

end Graph

namespace Film

/-- The record of a film. -/
def toJson (f : Film Float π) : Json :=
  .object
    [("graph", f.graph.listed), ("video", Pad.listed f.video), ("audio", Pad.listed f.audio),
      ("duration_secs", .ofFloat f.duration), ("total_frames", .ofNat f.totalFrames)]

end Film

namespace Still

/-- The record of a still. -/
def toJson (s : Still Float π) : Json :=
  .object
    [("graph", s.graph.listed), ("video", .string s.video.label), ("frame", .ofNat s.index),
      ("second", .ofFloat s.second)]

end Still

namespace Pick

mutual

/-- The record of a visible part. -/
def toJson : Pick Float π → Json
  | container tag _ _ items =>
      .object [("tag", .string tag.name), ("items", .array (toJsonAll items))]
  | leaf tag _ _ _ offset =>
      .object [("tag", .string tag.name), ("offset", .ofOption .ofFloat offset)]

/-- The records of visible children, each with its place. -/
def toJsonAll : List (Nat × Pick Float π) → List Json
  | [] => []
  | (index, p) :: rest => .array [.ofNat index, p.toJson] :: toJsonAll rest

end

end Pick

namespace FileFormat

/-- The record of a format. -/
def toJson (f : FileFormat) : Json :=
  .object
    [("format", .string f.name), ("name", .string f.name), ("display", .string f.name),
      ("extension", .string f.extension), ("audio", .bool f.hasAudio)]

end FileFormat

namespace Job

/-- The record of a job. -/
def toJson (j : Job) : Json :=
  .object
    [("output_path", .string j.output.text), ("format", .string j.format.name),
      ("overwrite", .bool j.overwrite), ("dry_run", .bool j.dryRun),
      ("audio_sample_rate", .ofNat j.sampleRate), ("video_bitrate_kbps", .ofNat j.videoBitrate),
      ("audio_bitrate_kbps", .ofNat j.audioBitrate), ("ffmpeg_binary", .string j.renderer)]

end Job

namespace Plan

/-- The record of a plan with its description. -/
def toJson (p : Plan Float) (report : String) : Json :=
  .object
    [("output_path", .string p.output.text), ("ffmpeg_args", .array (p.arguments.map .string)),
      ("total_frames", .ofNat p.frames), ("expected_duration_secs", .ofFloat p.duration),
      ("debug_report", .string report)]

end Plan

namespace Progress

/-- The record of a report. -/
def toJson (p : Progress) : Json :=
  .object
    [("stage", .string p.stage.name), ("progress", .ofFloat p.share),
      ("frames_rendered", .ofNat p.frames), ("total_frames", .ofNat p.total)]

end Progress
end Montage
