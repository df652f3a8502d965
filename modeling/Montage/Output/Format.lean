import Montage.Path
import Montage.Text.Blank

/-!
# File formats

The formats in which films are written: each is a container with its codecs.

**Input.** The name of a format, or the path of a file.

**Algorithm.** Names are looked up without regard to blanks around them and to letter case. A path
tells its format by its extension.

**Results.** Every format is read from its own name (`FileFormat.ofName?_name`).
-/

namespace Montage

/-- A container with its codecs. -/
inductive FileFormat where
  | mp4h264
  | mp4h265
  | webm
  | gif
  deriving Repr, DecidableEq

namespace FileFormat

/-- The name of a format. -/
def name : FileFormat → String
  | mp4h264 => "mp4-h264"
  | mp4h265 => "mp4-h265"
  | webm => "webm"
  | gif => "gif"

/-- The extension of files in a format. -/
def extension : FileFormat → String
  | mp4h264 => "mp4"
  | mp4h265 => "mp4"
  | webm => "webm"
  | gif => "gif"

/-- Whether files in a format can be heard. -/
def hasAudio : FileFormat → Bool
  | gif => false
  | _ => true

/-- The names that formats go by. -/
def names : List (String × FileFormat) :=
  [("mp4-h264", mp4h264), ("mp4", mp4h264), ("h264", mp4h264), ("mp4-h265", mp4h265),
    ("h265", mp4h265), ("hevc", mp4h265), ("webm", webm), ("gif", gif)]

/-- The format of a name. -/
def ofName? (s : String) : Option FileFormat :=
  names.lookup (String.ofList (Text.lower (Text.trim s.toList)))

/-- The extensions that formats are known by. -/
def extensions : List (String × FileFormat) :=
  [("mp4", mp4h264), ("m4v", mp4h264), ("mov", mp4h264), ("webm", webm), ("gif", gif)]

/-- The format that the extension of a path tells. -/
def ofPath? (p : Path) : Option FileFormat :=
  p.extension?.bind fun e => extensions.lookup (String.ofList (Text.lower e.toList))

theorem ofName?_name (f : FileFormat) : ofName? f.name = some f := by
  cases f <;> decide +kernel

end FileFormat
end Montage
