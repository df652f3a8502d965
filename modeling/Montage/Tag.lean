/-!
# Elements

The closed set of elements that make up the content of a document.

**Input.** The name of an element.

**Algorithm.** Containers order their children in time; the other elements are leaves of one kind of
media each.

**Results.** `ofName?_name`: a name determines its element.
-/

namespace Montage

/-- The elements of the content tree. -/
inductive Tag where
  | cont
  | wrp
  | seq
  | rect
  | prl
  | layer
  | vid
  | aud
  | img
  | txt
  deriving Repr, DecidableEq

/-- The kind of media in a leaf. -/
inductive MediaKind where
  | video
  | audio
  | image
  | text
  deriving Repr, DecidableEq

namespace MediaKind

/-- The word for a kind of media. -/
def name : MediaKind → String
  | video => "video"
  | audio => "audio"
  | image => "image"
  | text => "text"

/-- Whether leaves of this kind can be seen. -/
def hasVideo : MediaKind → Bool
  | audio => false
  | _ => true

/-- Whether leaves of this kind can be heard. -/
def hasAudio : MediaKind → Bool
  | video => true
  | audio => true
  | _ => false

/-- Whether media of this kind have a duration of their own. -/
def hasDuration : MediaKind → Bool
  | video => true
  | audio => true
  | _ => false

end MediaKind

namespace Tag

/-- All elements. -/
def all : List Tag :=
  [cont, wrp, seq, rect, prl, layer, vid, aud, img, txt]

/-- The name under which an element is written. -/
def name : Tag → String
  | cont => "cont"
  | wrp => "wrp"
  | seq => "seq"
  | rect => "rect"
  | prl => "prl"
  | layer => "layer"
  | vid => "vid"
  | aud => "aud"
  | img => "img"
  | txt => "txt"

/-- The element of a name. -/
def ofName? (s : String) : Option Tag :=
  all.find? fun t => t.name == s

/-- The kind of media of a leaf; containers have none. -/
def kind? : Tag → Option MediaKind
  | vid => some .video
  | aud => some .audio
  | img => some .image
  | txt => some .text
  | _ => none

/-- Whether the element holds other elements. -/
def isContainer (t : Tag) : Bool :=
  t.kind?.isNone

theorem ofName?_name (t : Tag) : ofName? t.name = some t := by
  cases t <;> decide

end Tag
end Montage
