import Montage.Json.Value
import Montage.Markup.Document
import Montage.Media.Info

/-!
# Listed documents

A document as data, before any style is applied to its content, and the facts about its media.

**Input.** A document, or what was found in a media file.

**Algorithm.** Records whose fields stand in a fixed order. Pairs are arrays of two.

**Results.** `Document.fields` and `MediaInfo.toJson`.
-/

namespace Montage

/-- A pair of texts. -/
def Json.ofPair (p : String × String) : Json :=
  .array [.string p.1, .string p.2]

namespace Resolution

/-- The record of a resolution. -/
def toJson (r : Resolution) : Json :=
  .object [("width", .ofNat r.width), ("height", .ofNat r.height)]

end Resolution

namespace Frame

/-- The record of a frame. -/
def toJson (f : Frame Float) : Json :=
  .object [("resolution", f.resolution.toJson), ("fps", .ofFloat f.fps)]

end Frame

namespace Declaration

/-- Declarations in order. -/
def listJson (ds : List Declaration) : Json :=
  .array (ds.map fun d => .ofPair (d.property, d.value))

end Declaration

namespace StyleSheet

/-- The rules of a sheet in order. -/
def toJson (sheet : StyleSheet) : Json :=
  .array (sheet.rules.map fun r =>
    .object
      [("selectors", .array (r.selectors.map fun s => .string s.text)),
        ("declarations", Declaration.listJson r.declarations)])

end StyleSheet

namespace Node

mutual

/-- The record of a node and all that is below it. -/
def toJson : Node → Json
  | ⟨tag, attributes, children, text⟩ =>
      .object
        [("tag", .string tag.name), ("attributes", .array (attributes.map .ofPair)),
          ("children", .array (toJsonAll children)), ("text", .ofOption .string text)]

/-- The records of nodes in order. -/
def toJsonAll : List Node → List Json
  | [] => []
  | n :: rest => n.toJson :: toJsonAll rest

end

end Node

namespace Document

/-- The fields of a document with their names. -/
def fields (d : Document Float) : List (String × Json) :=
  [("context", d.frame.toJson), ("resolution", .string d.frame.resolution.text),
    ("base_dir", .string d.baseDir.text), ("rules", d.sheet.toJson), ("root", d.root.toJson)]

end Document

namespace MediaInfo

/-- The record of what is known about a media file. -/
def toJson (m : MediaInfo Float) : Json :=
  .object
    [("duration_secs", .ofOption .ofFloat m.duration),
      ("video", .ofOption (fun v : VideoInfo =>
        .object [("width", .ofNat v.width), ("height", .ofNat v.height)]) m.video),
      ("audio", .ofOption (fun a : AudioInfo =>
        .object
          [("channel_layout", .ofOption .string a.layout),
            ("channels", .ofOption .ofNat a.channels)]) m.audio)]

end MediaInfo
end Montage
