import Montage.Decimal.Shortest
import Montage.Measure.Timescale
import Montage.ValueError

/-!
# Lengths in time

A span is a number of seconds or frames, a share of the parent's length, the natural length of the
media, or left open to fit.

**Input.** The text of a declared span.

**Algorithm.** The unit is cut off the end and the number before it is read. Frames become seconds
by the frame rate; shares and natural lengths are resolved against the parent and the media.

**Results.** Arithmetic on spans of different units gives an open span.
-/

namespace Montage

/-- A length in time. -/
inductive Span (τ : Type) where
  | seconds (count : τ)
  | frames (count : τ)
  | percent (share : τ)
  | fit
  | source
  deriving BEq, Repr

namespace Span

variable {τ : Type}

/-- Whether the span is left open. -/
def isFit : Span τ → Bool
  | fit => true
  | _ => false

/-- Whether the span is the natural length of the media. -/
def isSource : Span τ → Bool
  | source => true
  | _ => false

/-- The seconds of a concrete span. -/
def seconds? : Span τ → Option τ
  | seconds t => some t
  | _ => none

@[simp] theorem seconds?_seconds (t : τ) : (seconds t).seconds? = some t := rfl

/-- Combines two spans of one concrete unit. An open span wins over all, a natural length over
what is left. -/
def combine (op : τ → τ → τ) : Span τ → Span τ → Span τ
  | seconds a, seconds b => seconds (op a b)
  | frames a, frames b => frames (op a b)
  | fit, _ => fit
  | _, fit => fit
  | source, _ => source
  | _, source => source
  | _, _ => fit

variable [Timescale τ]

/-- No time. -/
def zero : Span τ :=
  seconds 0

/-- The seconds of a concrete span, or none at all. -/
def secondsOrZero (s : Span τ) : τ :=
  s.seconds?.getD 0

@[simp] theorem secondsOrZero_seconds (t : τ) : (seconds t).secondsOrZero = t := rfl

/-- Whether the span is concrete and longer than no time. -/
def isPositive (s : Span τ) : Bool :=
  match s.seconds? with
  | some t => decide (0 < t)
  | none => false

/-- The seconds of a span that is concrete once the frame rate is known. -/
def toSeconds? (fps : τ) : Span τ → Option τ
  | seconds t => some t
  | frames n => if 0 < fps then some (n / fps) else none
  | _ => none

/-- Resolves a span. A share needs the parent's length; without it, it is the natural length, and
without either it is open. -/
def resolve (parent natural : Option τ) (fps : τ) : Span τ → Span τ
  | seconds t => seconds t
  | fit => fit
  | frames n =>
      match (frames n).toSeconds? fps with
      | some t => seconds t
      | none => frames n
  | percent share =>
      match parent, natural with
      | some p, _ => seconds (p * share / 100.0)
      | none, some n => seconds n
      | none, none => fit
  | source =>
      match natural with
      | some n => seconds n
      | none => fit

/-- The greater of two spans. -/
def longer : Span τ → Span τ → Span τ :=
  combine Timescale.longer

/-- The lesser of two spans. -/
def shorter : Span τ → Span τ → Span τ :=
  combine Timescale.shorter

instance : Add (Span τ) := ⟨combine (· + ·)⟩

@[simp] theorem seconds_add_seconds (a b : τ) :
    (seconds a + seconds b : Span τ) = seconds (a + b) := rfl

/-- The number in front of a unit: nonempty, without blanks, and a real number. -/
def number? (cs : List Char) : Option τ :=
  if cs.isEmpty || cs.any Text.isBlank then
    none
  else
    (Decimal.Literal.parse? cs).bind Timescale.ofLiteral?

/-- The units at the end of a text. -/
def units : List (String × (τ → Span τ)) :=
  [("s", seconds), ("f", frames), ("%", percent)]

/-- Reads a number and a unit, or one of the words `fit` and `source` in any letter case. -/
def parse (s : String) : Except ValueError (Span τ) :=
  let cs := Text.trim s.toList
  if Text.lower cs = "fit".toList then
    .ok fit
  else if Text.lower cs = "source".toList then
    .ok source
  else
    let found := units.findSome? fun (unit, make) =>
      (Text.stripEnd? unit.toList cs).map fun n => (number? n).map make
    match found with
    | some (some t) => .ok t
    | _ => .error (.span s)

/-- The form that `parse` reads. -/
def text : Span Float → String
  | seconds t => Decimal.plainText t ++ "s"
  | frames n => Decimal.plainText n ++ "f"
  | percent x => Decimal.plainText x ++ "%"
  | fit => "fit"
  | source => "source"

end Span
end Montage
