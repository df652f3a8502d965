import Montage.Json.Reader
import Montage.Json.Writer
import Montage.Path

/-!
# Configuration

The settings that hold for every document: how films are written, and how the work is logged.

**Input.** The text of a configuration file.

**Algorithm.** A configuration is a record of records. Missing fields have their defaults; an
unknown field is skipped, and a field of the wrong kind spoils the whole.

**Results.** `Config.ofText?` reads a configuration, `Config.text` writes it.
-/

namespace Montage

/-- How films are written where nothing else is asked for. Bit rates are in thousands a second. -/
structure RenderDefaults where
  format : String
  sampleRate : Nat
  videoBitrate : Nat
  audioBitrate : Nat
  renderer : String
  prober : String
  deriving Repr, DecidableEq

/-- How the work is logged. -/
structure LogSettings where
  level : String
  json : Bool
  file : Option Path
  deriving Repr, DecidableEq

/-- The settings that hold for every document. -/
structure Config where
  render : RenderDefaults
  logging : LogSettings
  deriving Repr, DecidableEq

namespace Config

/-- A field of a record that may be missing. -/
def field? {α : Type} (default : α) (read : Json → Option α) : Option Json → Option α
  | none => some default
  | some j => read j

/-- A count of 32 bits. -/
def count? : Json → Option Nat :=
  Json.natBelow? UInt32.size

end Config

namespace RenderDefaults

/-- The settings where there is no configuration. -/
def standard : RenderDefaults :=
  ⟨"mp4-h264", 48000, 8000, 192, "ffmpeg", "ffprobe"⟩

/-- The names of the fields in order. -/
def names : List String :=
  ["format", "audio_sample_rate", "video_bitrate_kbps", "audio_bitrate_kbps", "ffmpeg_binary",
    "ffprobe_binary"]

/-- Reads the record of the settings. -/
def ofJson? (j : Json) : Option RenderDefaults := do
  match ← j.record? true names with
  | [format, sampleRate, videoBitrate, audioBitrate, renderer, prober] =>
      let format ← Config.field? standard.format Json.string? format
      let sampleRate ← Config.field? standard.sampleRate Config.count? sampleRate
      let videoBitrate ← Config.field? standard.videoBitrate Config.count? videoBitrate
      let audioBitrate ← Config.field? standard.audioBitrate Config.count? audioBitrate
      let renderer ← Config.field? standard.renderer Json.string? renderer
      let prober ← Config.field? standard.prober Json.string? prober
      some ⟨format, sampleRate, videoBitrate, audioBitrate, renderer, prober⟩
  | _ => none

/-- The record of the settings. -/
def toJson (d : RenderDefaults) : Json :=
  .object (names.zip
    [.string d.format, .ofNat d.sampleRate, .ofNat d.videoBitrate, .ofNat d.audioBitrate,
      .string d.renderer, .string d.prober])

end RenderDefaults

namespace LogSettings

/-- The settings where there is no configuration. -/
def standard : LogSettings :=
  ⟨"info", false, none⟩

/-- The names of the fields in order. -/
def names : List String :=
  ["level", "json", "file"]

/-- Reads the record of the settings. -/
def ofJson? (j : Json) : Option LogSettings := do
  match ← j.record? true names with
  | [level, json, file] =>
      let level ← Config.field? standard.level Json.string? level
      let json ← Config.field? standard.json Json.bool? json
      let file ← Config.field? none (Json.optional? Json.string?) file
      some ⟨level, json, file.map Path.mk⟩
  | _ => none

/-- The record of the settings. -/
def toJson (s : LogSettings) : Json :=
  .object (names.zip
    [.string s.level, .bool s.json, .ofOption (fun p => .string p.text) s.file])

end LogSettings

namespace Config

/-- The settings where there is no configuration. -/
def standard : Config :=
  ⟨.standard, .standard⟩

/-- The names of the fields in order. -/
def names : List String :=
  ["render", "logging"]

/-- Reads the record of a configuration. -/
def ofJson? (j : Json) : Option Config := do
  match ← j.record? true names with
  | [render, logging] =>
      let render ← field? .standard RenderDefaults.ofJson? render
      let logging ← field? .standard LogSettings.ofJson? logging
      some ⟨render, logging⟩
  | _ => none

/-- The record of a configuration. -/
def toJson (c : Config) : Json :=
  .object (names.zip [c.render.toJson, c.logging.toJson])

/-- Reads the text of a configuration. -/
def ofText? (s : String) : Option Config :=
  (Json.parse? s).bind ofJson?

/-- The text of a configuration. -/
def text (c : Config) : String :=
  c.toJson.pretty

end Config
end Montage
