import Montage.Json.Value

/-!
# Reading JSON

**Input.** A text.

**Algorithm.** Recursive descent over the characters. Every step consumes a character, so the length
of the text bounds the depth of the recursion.

**Results.** `Json.parse?` reads one value and nothing but blanks around it.
-/

namespace Montage
namespace Json

/-- The four blanks between tokens. -/
def isSpace (c : Char) : Bool :=
  c == ' ' || c == '\t' || c == '\n' || c == '\r'

/-- The text without leading blanks. -/
def skipSpace (cs : List Char) : List Char :=
  cs.dropWhile isSpace

/-- A unit of sixteen bits from four hexadecimal digits, and the rest. -/
def unit16? : List Char → Option (Nat × List Char)
  | a :: b :: c :: d :: cs => do
      let a ← Decimal.hexDigit? a
      let b ← Decimal.hexDigit? b
      let c ← Decimal.hexDigit? c
      let d ← Decimal.hexDigit? d
      some (((a * 16 + b) * 16 + c) * 16 + d, cs)
  | _ => none

/-- A character written as one unit of sixteen bits, or as a pair of surrogates, and the rest. Half a
pair is no character. -/
def codePoint? (cs : List Char) : Option (Option Char × List Char) := do
  let (n, rest) ← unit16? cs
  if n < 0xD800 ∨ 0xE000 ≤ n then
    some (some (Char.ofNat n), rest)
  else
    match rest with
    | '\\' :: 'u' :: more =>
        match unit16? more with
        | some (m, after) =>
            if n < 0xDC00 ∧ 0xDC00 ≤ m ∧ m < 0xE000 then
              some (some (Char.ofNat (0x10000 + (n - 0xD800) * 0x400 + (m - 0xDC00))), after)
            else
              some (none, rest)
        | none => some (none, rest)
    | _ => some (none, rest)

/-- The character after a backslash that stands for one character. -/
def escaped? (c : Char) : Option Char :=
  [('"', '"'), ('\\', '\\'), ('/', '/'), ('b', '\x08'), ('f', '\x0c'), ('n', '\n'), ('r', '\r'),
    ('t', '\t')].lookup c

/-- What follows a backslash: the character that it stands for, if it is one, and the rest. -/
def escape? : List Char → Option (Option Char × List Char)
  | 'u' :: rest => codePoint? rest
  | c :: rest => (escaped? c).map fun d => (some d, rest)
  | [] => none

/-- An item in front of others, if all are there. -/
def consIfAll {α : Type} (a : Option α) (others : Option (List α)) : Option (List α) := do
  let a ← a
  let others ← others
  some (a :: others)

/-- The text of a string up to its closing quote, if it stands for one, and the rest. The first
argument bounds its length. -/
def stringBody? : Nat → List Char → Option (Option (List Char) × List Char)
  | 0, _ => none
  | _, [] => none
  | fuel + 1, c :: cs =>
      if c = '"' then
        some (some [], cs)
      else if c.toNat < 32 then
        none
      else do
        let (d, rest) ← if c = '\\' then escape? cs else some (some c, cs)
        let (text, rest) ← stringBody? fuel rest
        some (consIfAll d text, rest)

/-- The value of a string, if it stands for a text. -/
def ofText : Option (List Char) → Json
  | some cs => string (String.ofList cs)
  | none => garbled

/-- The value of an object, if all of its keys stand for texts. -/
def ofFields : Option (List (String × Json)) → Json
  | some fields => object fields
  | none => garbled

/-- A nonempty run of digits, and the rest. -/
def digits? (cs : List Char) : Option (List Char × List Char) :=
  let run := cs.takeWhile Decimal.isDigit
  if run.isEmpty then none else some (run, cs.dropWhile Decimal.isDigit)

/-- The digits before the point: a zero stands alone. -/
def whole? (cs : List Char) : Option (List Char × List Char) :=
  match cs with
  | '0' :: rest => if (digits? rest).isSome then none else some (['0'], rest)
  | _ => digits? cs

/-- The point and the digits after it, if there is a point. -/
def fraction? : List Char → Option (List Char × List Char)
  | '.' :: cs => (digits? cs).map fun (ds, rest) => ('.' :: ds, rest)
  | cs => some ([], cs)

/-- The mark of an exponent, its sign and its digits, if there is a mark. -/
def exponent? : List Char → Option (List Char × List Char)
  | [] => some ([], [])
  | c :: cs =>
      if c = 'e' ∨ c = 'E' then
        match cs with
        | '+' :: cs => (digits? cs).map fun (ds, rest) => ('e' :: ds, rest)
        | '-' :: cs => (digits? cs).map fun (ds, rest) => ('e' :: '-' :: ds, rest)
        | cs => (digits? cs).map fun (ds, rest) => ('e' :: ds, rest)
      else
        some ([], c :: cs)

/-- A number, and the rest. -/
def number? (cs : List Char) : Option (Json × List Char) := do
  let (sign, cs) := match cs with
    | '-' :: cs => (['-'], cs)
    | cs => ([], cs)
  let (whole, cs) ← whole? cs
  let (part, cs) ← fraction? cs
  let (exponent, cs) ← exponent? cs
  some (number (String.ofList (sign ++ whole ++ part ++ exponent)), cs)

/-- The words that are values. -/
def word? (cs : List Char) : Option (Json × List Char) :=
  [("null", null), ("true", bool true), ("false", bool false)].findSome? fun (w, j) =>
    (Text.stripStart? w.toList cs).map fun rest => (j, rest)

mutual

/-- A value, and the rest. -/
def value? : Nat → List Char → Option (Json × List Char)
  | 0, _ => none
  | fuel + 1, cs =>
      match skipSpace cs with
      | '"' :: rest =>
          (stringBody? (fuel + 1) rest).map fun (text, rest) => (ofText text, rest)
      | '[' :: rest =>
          match skipSpace rest with
          | ']' :: rest => some (array [], rest)
          | rest => (items? fuel rest).map fun (items, rest) => (array items, rest)
      | '\x7b' :: rest =>
          match skipSpace rest with
          | '\x7d' :: rest => some (object [], rest)
          | rest => (fields? fuel rest).map fun (fields, rest) => (ofFields fields, rest)
      | rest => (word? rest).or (number? rest)

/-- The items of an array up to its closing bracket, and the rest. -/
def items? : Nat → List Char → Option (List Json × List Char)
  | 0, _ => none
  | fuel + 1, cs => do
      let (item, rest) ← value? fuel cs
      match skipSpace rest with
      | ',' :: rest => (items? fuel rest).map fun (items, rest) => (item :: items, rest)
      | ']' :: rest => some ([item], rest)
      | _ => none

/-- The fields of an object up to its closing bracket, if their keys stand for texts, and the rest. -/
def fields? : Nat → List Char → Option (Option (List (String × Json)) × List Char)
  | 0, _ => none
  | fuel + 1, cs =>
      match skipSpace cs with
      | '"' :: rest => do
          let (key, rest) ← stringBody? (fuel + 1) rest
          match skipSpace rest with
          | ':' :: rest => do
              let (item, rest) ← value? fuel rest
              let field := key.map fun key => (String.ofList key, item)
              match skipSpace rest with
              | ',' :: rest =>
                  (fields? fuel rest).map fun (fields, rest) => (consIfAll field fields, rest)
              | '\x7d' :: rest => some (consIfAll field (some []), rest)
              | _ => none
          | _ => none
      | _ => none

end

/-- Reads one value with nothing but blanks around it. -/
def parse? (s : String) : Option Json :=
  let cs := s.toList
  match value? (2 * cs.length + 2) cs with
  | some (j, rest) => if (skipSpace rest).isEmpty then some j else none
  | none => none

end Json
end Montage
