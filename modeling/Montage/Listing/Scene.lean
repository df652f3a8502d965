import Montage.Listing.Measure
import Montage.Scene.Basic

/-!
# Listed scenes

A scene as data: every node with all that its style resolved to.

**Input.** A scene.

**Algorithm.** Records whose fields stand in a fixed order. What is not set is null.

**Results.** `Scene.toJson` is the listing of a scene.
-/

namespace Montage

variable {π : Type} [PixelCount π]

namespace SourceFacts

/-- The record of the facts about media. -/
def toJson (f : SourceFacts Float π) : Json :=
  .object
    [("duration_secs", .ofOption .ofFloat f.duration),
      ("width", .ofOption (fun n => .ofInt (PixelCount.toInt n)) f.width),
      ("height", .ofOption (fun n => .ofInt (PixelCount.toInt n)) f.height),
      ("has_audio", .bool f.hasAudio),
      ("audio_system", .ofOption (fun a => .string a.name) f.audioSystem)]

end SourceFacts

namespace Color

/-- The text of a color as data. -/
def toJson (c : Color) : Json :=
  .string c.text

end Color

namespace Style

/-- The fields of a style with their names. -/
def fields (s : Style Float π) : List (String × Json) :=
  [("object_length", s.objectLength.toJson),
    ("time_margin_start", s.timeMarginStart.toJson),
    ("time_margin_end", s.timeMarginEnd.toJson),
    ("time_padding_start", s.timePaddingStart.toJson),
    ("time_padding_end", s.timePaddingEnd.toJson),
    ("order", .string s.order.name),
    ("width", s.width.toJson),
    ("height", s.height.toJson),
    ("layer_mode", .string s.layerMode.name),
    ("direction", .string s.direction.name),
    ("margin", s.margin.toJson),
    ("padding", s.padding.toJson),
    ("background_color", .ofOption Color.toJson s.backgroundColor),
    ("audio_volume", .ofFloat s.audioVolume),
    ("audio_system", .ofOption (fun a => .string a.name) s.audioSystem),
    ("font_family", .ofOption .string s.fontFamily),
    ("font_size", .ofOption Length.toJson s.fontSize),
    ("font_color", .ofOption Color.toJson s.fontColor),
    ("font_border_color", .ofOption Color.toJson s.fontBorderColor),
    ("font_border_width", .ofOption (fun n => .ofInt (PixelCount.toInt n)) s.fontBorderWidth),
    ("font_weight", .ofOption (fun w => .string w.name) s.fontWeight),
    ("font_style", .ofOption (fun f => .string f.name) s.fontStyle),
    ("source", s.source.toJson)]

/-- The record of a style. -/
def toJson (s : Style Float π) : Json :=
  .object s.fields

end Style

namespace Locator

/-- The record of where media come from. -/
def toJson : Locator → Json
  | path p => .object [("path", .string p.text)]
  | text s => .object [("text", .string s)]

end Locator

namespace Scene

mutual

/-- The record of a node and all that is below it. -/
def toJson : Scene Float π → Json
  | container tag style items =>
      .object
        [("node", .string "wrap"), ("tag", .string tag.name), ("style", style.toJson),
          ("items", .array (toJsonAll items)), ("exist_video", .bool (anyVideo items)),
          ("exist_audio", .bool (anyAudio items))]
  | leaf tag kind locator style =>
      .object
        [("node", .string "source"), ("tag", .string tag.name), ("kind", .string kind.name),
          ("locator", locator.toJson), ("style", style.toJson)]

/-- The records of nodes in order. -/
def toJsonAll : List (Scene Float π) → List Json
  | [] => []
  | s :: rest => s.toJson :: toJsonAll rest

end

end Scene
end Montage
