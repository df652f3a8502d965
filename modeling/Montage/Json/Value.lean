import Montage.Decimal.Literal
import Montage.Decimal.Shortest

/-!
# JSON values

The values of the data format in which configurations, probe reports and listings are kept.

**Input.** Scalars and collections of this library.

**Algorithm.** A number is kept as it is written, so that no digit is lost. Records are read by
their field names or, as an array, by the order of their fields.

**Results.** Readers for the scalars return nothing for a value of another kind or out of range.
-/

namespace Montage

/-- A JSON value. Numbers are held in their written form, objects in the order of their keys. A string
with half a pair of surrogates stands for no text; it, and an object with such a key, is `garbled`. -/
inductive Json where
  | null
  | bool (b : Bool)
  | number (text : String)
  | string (s : String)
  | array (items : List Json)
  | object (fields : List (String × Json))
  | garbled

namespace Json

/-- A whole number. -/
def ofInt (n : Int) : Json :=
  number n.repr

/-- A count. -/
def ofNat (n : Nat) : Json :=
  number n.repr

/-- A double; an infinity or no number is null. -/
def ofFloat (x : Float) : Json :=
  match Decimal.numberText? x with
  | some t => number t
  | none => null

/-- A value or null. -/
def ofOption {α : Type} (f : α → Json) : Option α → Json
  | some a => f a
  | none => null

/-- The text of a string. -/
def string? : Json → Option String
  | string s => some s
  | _ => none

/-- The value of a truth value. -/
def bool? : Json → Option Bool
  | bool b => some b
  | _ => none

/-- The items of an array. -/
def array? : Json → Option (List Json)
  | array items => some items
  | _ => none

/-- The fields of an object. -/
def object? : Json → Option (List (String × Json))
  | object fields => some fields
  | _ => none

/-- The value of a number that is a real number within the range of doubles. -/
def float? : Json → Option Float
  | number t =>
      (Decimal.Literal.parse? t.toList).bind fun l =>
        let x := l.toFloat
        if x.isFinite then some x else none
  | _ => none

/-- The value of a number written with digits only, a sign apart. Zero has no sign. -/
def int? : Json → Option Int
  | number t =>
      match t.toList with
      | '-' :: cs => (Decimal.parseNat? cs).bind fun n => if n = 0 then none else some (-(n : Int))
      | cs => (Decimal.parseNat? cs).map fun n => (n : Int)
  | _ => none

/-- A count below `bound`. -/
def natBelow? (bound : Nat) (j : Json) : Option Nat :=
  match j.int? with
  | some (.ofNat n) => if n < bound then some n else none
  | _ => none

/-- The value under a key of an object. -/
def get? (key : String) (j : Json) : Option Json :=
  j.object?.bind (List.lookup key)

/-- What an optional field holds: nothing for null. -/
def optional? {α : Type} (f : Json → Option α) : Json → Option (Option α)
  | null => some none
  | j => (f j).map some

/-- The name of one of several cases: a text, or an object of that one key with null under it. -/
def caseName? : Json → Option String
  | string s => some s
  | object [(name, null)] => some name
  | _ => none

/-- The fields of a record by their names: no name may come twice, and other keys are skipped.
An array lists the fields in their order, all of them unless `short` admits that the last ones
are missing. -/
def record? (short : Bool) (names : List String) : Json → Option (List (Option Json))
  | object fields =>
      let known := (fields.map Prod.fst).filter names.contains
      if known.eraseDups.length = known.length then
        some (names.map fun name => fields.lookup name)
      else
        none
  | array items =>
      if items.length = names.length ∨ short ∧ items.length < names.length then
        some (items.map some ++ List.replicate (names.length - items.length) none)
      else
        none
  | _ => none

end Json
end Montage
