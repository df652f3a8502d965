import Montage.Graph.Text
import Montage.Style.Basic

/-!
# Filters

The filters that documents are compiled to.

**Input.** Sizes, offsets, times and texts.

**Algorithm.** One constructor a filter, holding its exact values; `invocation` gives the name and
the options in the order in which they are written.

**Results.** Times and rates are written with six places, delays in whole milliseconds.
-/

namespace Montage

/-- When an overlay ends. -/
inductive OverlayEnd where
  /-- It runs until both of its inputs have ended. -/
  | longest
  /-- It ends with the first input that ends. -/
  | shortest
  /-- It ends with its base, which it shows alone after the top has ended. -/
  | pass
  deriving Repr, DecidableEq

/-- How text is drawn. -/
structure Face (π : Type) where
  pattern : Option String
  size : Option π
  color : Color
  borderColor : Option Color
  borderWidth : Option π
  deriving Repr, DecidableEq

/-- A filter with its exact values. -/
inductive Filter (τ π : Type) where
  | color (width height : π) (color : Color) (rate : τ)
  | silence (sampleRate : Nat)
  | rgba
  | scale (width height : Option π)
  | squarePixels
  | frameRate (fps : τ)
  | overlay (x y : π) (ending : OverlayEnd)
  | trim (kind : StreamKind) (stop : τ)
  | seek (start : τ)
  | resetTimestamps
  | loop (kind : StreamKind)
  | holdBefore (t : τ) (color : Color)
  | holdAfter (t : τ) (color : Color)
  | holdLast
  | delay (t : τ)
  | padAfter (t : τ)
  | padWhole (t : τ)
  | padForever
  | concat (segments : Nat) (kind : StreamKind)
  | pair
  | mix (inputs : Nat)
  | mergeChannels
  | downmix
  | normalize (sampleRate : Nat)
  | volume (percent : Float)
  | drawText (text : String) (x y : π) (face : Face π)
  | split (kind : StreamKind)
  | sink (kind : StreamKind)
  | makePalette
  | usePalette

namespace Style

variable {τ π : Type}

/-- The pattern by which a font is found, if the style sets its family, weight or slant. -/
def fontPattern? (s : Style τ π) : Option String :=
  if s.fontFamily.isNone && s.fontWeight.isNone && s.fontStyle.isNone then
    none
  else
    let weight := if s.fontWeight = some .bold then ":weight=bold" else ""
    let slant := if s.fontStyle = some .italic then ":slant=italic" else ""
    some (s.fontFamily.getD "Sans" ++ weight ++ slant)

/-- How a style draws text. -/
def face (s : Style τ π) : Face π where
  pattern := s.fontPattern?
  size := s.fontSize.bind Length.pixels?
  color := s.fontColor.getD .white
  borderColor := s.fontBorderColor
  borderWidth := s.fontBorderWidth

end Style

/-- The gain of a volume in decibels. -/
def decibels (percent : Float) : Float :=
  20.0 * (percent / 100.0).log10

namespace Filter

variable {τ π : Type} [Timescale τ] [PixelCount π]

/-- The filter for a volume in percent; the full volume needs none. -/
def ofVolume? (percent : Float) : Option (Filter τ π) :=
  if (percent - 100.0).abs < 2.220446049250313e-16 then none else some (volume percent)

/-- The text of a gain. -/
def gainText (percent : Float) : String :=
  if percent ≤ 0.0 then "-inf" else Timescale.text (decibels percent)

/-- The whole milliseconds of a time, halves away from zero. -/
def milliseconds (t : τ) : Int :=
  (Timescale.exact (t * 1000.0)).roundWithin Int64.minValue.toInt Int64.maxValue.toInt

/-- An option with a name. -/
def named (key value : String) : Option String × String :=
  (some key, value)

/-- An option that is known by its place. -/
def positional (value : String) : Option String × String :=
  (none, value)

/-- A side of a scaled picture; one that is left open keeps the aspect ratio. -/
def sideText (side : Option π) : String :=
  match side with
  | some n => PixelCount.text n
  | none => "-1"

/-- An option that is only written if it is set. -/
def optional {α : Type} (key : String) (write : α → String) (a : Option α) :
    List (Option String × String) :=
  (a.map fun a => named key (write a)).toList

/-- The name and the options of a filter. -/
def invocation : Filter τ π → Invocation
  | color width height c rate =>
      ⟨"color",
        [named "c" c.code,
          named "s" (PixelCount.text width ++ "x" ++ PixelCount.text height),
          named "r" (Timescale.text rate)]⟩
  | silence sampleRate =>
      ⟨"anullsrc", [named "channel_layout" "stereo", named "sample_rate" sampleRate.repr]⟩
  | rgba => ⟨"format", [named "pix_fmts" "rgba"]⟩
  | scale width height => ⟨"scale", [positional (sideText width), positional (sideText height)]⟩
  | squarePixels => ⟨"setsar", [positional "1"]⟩
  | frameRate fps => ⟨"fps", [positional (Timescale.text fps)]⟩
  | overlay x y ending =>
      let last := match ending with
        | .longest => []
        | .shortest => [named "shortest" "1"]
        | .pass => [named "eof_action" "pass"]
      ⟨"overlay",
        [named "x" (PixelCount.text x), named "y" (PixelCount.text y), named "format" "rgb"] ++ last⟩
  | trim .video stop => ⟨"trim", [named "end" (Timescale.text stop)]⟩
  | trim .audio stop => ⟨"atrim", [named "end" (Timescale.text stop)]⟩
  | seek start => ⟨"trim", [named "start" (Timescale.text start)]⟩
  | resetTimestamps => ⟨"setpts", [positional "PTS-STARTPTS"]⟩
  | loop .video => ⟨"loop", [named "loop" "-1", named "size" "32767", named "start" "0"]⟩
  | loop .audio => ⟨"aloop", [named "loop" "-1", named "size" "2147483647", named "start" "0"]⟩
  | holdBefore t c =>
      ⟨"tpad", [named "start_duration" (Timescale.text t), named "color" c.code]⟩
  | holdAfter t c =>
      ⟨"tpad", [named "stop_duration" (Timescale.text t), named "color" c.code]⟩
  | holdLast => ⟨"tpad", [named "stop" "-1", named "stop_mode" "clone"]⟩
  | delay t => ⟨"adelay", [named "delays" (milliseconds t).repr, named "all" "1"]⟩
  | padAfter t => ⟨"apad", [named "pad_dur" (Timescale.text t)]⟩
  | padWhole t => ⟨"apad", [named "whole_dur" (Timescale.text t)]⟩
  | padForever => ⟨"apad", []⟩
  | concat segments .video => ⟨"concat", [named "n" segments.repr, named "v" "1", named "a" "0"]⟩
  | concat segments .audio => ⟨"concat", [named "n" segments.repr, named "v" "0", named "a" "1"]⟩
  | pair => ⟨"concat", [named "n" "1", named "v" "1", named "a" "1"]⟩
  | mix inputs =>
      ⟨"amix", [named "inputs" inputs.repr, named "duration" "longest", named "normalize" "0"]⟩
  | mergeChannels => ⟨"amerge", [named "inputs" "2"]⟩
  | downmix => ⟨"pan", [positional "mono|c0=0.5*c0+0.5*c1"]⟩
  | normalize sampleRate =>
      ⟨"aformat",
        [named "sample_fmts" "fltp", named "sample_rates" sampleRate.repr,
          named "channel_layouts" "stereo"]⟩
  | volume percent => ⟨"volume", [named "volume" (gainText percent ++ "dB")]⟩
  | drawText text x y face =>
      ⟨"drawtext",
        [named "expansion" "none", named "text" text, named "x" (PixelCount.text x),
          named "y" (PixelCount.text y)]
          ++ optional "font" id face.pattern
          ++ optional "fontsize" PixelCount.text face.size
          ++ [named "fontcolor" face.color.code]
          ++ optional "bordercolor" Color.code face.borderColor
          ++ optional "borderw" PixelCount.text face.borderWidth⟩
  | split .video => ⟨"split", []⟩
  | split .audio => ⟨"asplit", []⟩
  | sink .video => ⟨"nullsink", []⟩
  | sink .audio => ⟨"anullsink", []⟩
  | makePalette => ⟨"palettegen", []⟩
  | usePalette => ⟨"paletteuse", []⟩

end Filter
end Montage
