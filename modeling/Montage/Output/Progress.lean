import Montage.Measure.Timescale
import Montage.Text.Split

/-!
# Progress

How far the rendering of a film has come.

**Input.** The lines that a rendering program prints on the way: keys and values.

**Algorithm.** The time that has been written is remembered; whenever the program closes a round of
lines, the share of the expected duration is reported.

**Results.** `Progress.ofOutput` gives the reports in order; a share lies between none and all.
-/

namespace Montage

/-- The stages of a rendering. -/
inductive RenderStage where
  | preparing
  | rendering
  | finalizing
  | complete
  | failed
  deriving Repr, DecidableEq

namespace RenderStage

/-- The word for a stage. -/
def name : RenderStage → String
  | preparing => "preparing"
  | rendering => "rendering"
  | finalizing => "finalizing"
  | complete => "complete"
  | failed => "failed"

end RenderStage

/-- A report: the stage, the share that is done, and the frames of it. -/
structure Progress where
  stage : RenderStage
  share : Float
  frames : Nat
  total : Nat

/-- What a rendering program has told so far: the seconds it has written, and whether it is at its
end. -/
structure Tally where
  written : Float
  ended : Bool

namespace Tally

/-- Nothing has been told. -/
def start : Tally :=
  ⟨0.0, false⟩

/-- Takes note of a key and its value. Times come in millionths of a second under either name. -/
def update (t : Tally) (key value : List Char) : Tally :=
  if key = "out_time_ms".toList ∨ key = "out_time_us".toList then
    match Decimal.Literal.parse? value with
    | some l => { t with written := l.toFloat / 1000000.0 }
    | none => t
  else if key = "progress".toList then
    { t with ended := value == "end".toList }
  else
    t

/-- A share cut to the range from none to all. -/
def clampShare (x : Float) : Float :=
  if x < 0.0 then 0.0 else if 1.0 < x then 1.0 else x

/-- The share of the expected duration that is written. -/
def share (t : Tally) (expected : Float) : Float :=
  if expected ≤ 0.0 then 0.0 else clampShare (t.written / expected)

end Tally

namespace Progress

/-- The frames of a share, to the nearest. -/
def framesOf (share : Float) (total : Nat) : Nat :=
  ((Decimal.Exact.ofFloat (share * Float.ofNat total)).roundWithin 0 (UInt64.size - 1)).toNat

/-- The report at the beginning or at the end of a stage. -/
def atStage (stage : RenderStage) (share : Float) (total : Nat) : Progress :=
  ⟨stage, share, framesOf share total, total⟩

/-- The report on what a rendering program has told. -/
def ofTally (t : Tally) (total : Nat) (expected : Float) : Progress :=
  let share := t.share expected
  { stage := if t.ended then .finalizing else .rendering
    share := if t.ended then 1.0 else share
    frames := framesOf share total
    total }

/-- The seconds that are left, if a share was done in the given time. -/
def remaining (share elapsed : Float) : Float :=
  if 0.0 < share then
    let left := elapsed / share - elapsed
    if left < 0.0 then 0.0 else left
  else
    0.0

/-- The reports on lines that are still to be told, after a tally. -/
def fromTally (total : Nat) (expected : Float) : Tally → List (List Char) → List Progress
  | _, [] => []
  | t, line :: rest =>
      match Text.splitFirst? '=' (Text.trim line) with
      | none => fromTally total expected t rest
      | some (key, value) =>
          let t := t.update key value
          if key = "progress".toList then
            ofTally t total expected :: fromTally total expected t rest
          else
            fromTally total expected t rest

/-- The reports on the output of a rendering program. -/
def ofOutput (total : Nat) (expected : Float) (output : String) : List Progress :=
  fromTally total expected .start (Text.splitAll '\n' output.toList)

end Progress
end Montage
