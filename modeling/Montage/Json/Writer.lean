import Montage.Json.Value

/-!
# Writing JSON

The two written forms of a value: on one line, or with one item a line.

**Input.** A JSON value.

**Algorithm.** Recursion over the value. In strings the quote, the backslash and control characters
are escaped. What is no text is written as null.

**Results.** `Json.compact` and `Json.pretty`.
-/

namespace Montage
namespace Json

/-- A character inside a string. -/
def escapeChar (c : Char) : List Char :=
  if c = '"' then ['\\', '"']
  else if c = '\\' then ['\\', '\\']
  else if c = '\n' then ['\\', 'n']
  else if c = '\r' then ['\\', 'r']
  else if c = '\t' then ['\\', 't']
  else if c.toNat = 8 then ['\\', 'b']
  else if c.toNat = 12 then ['\\', 'f']
  else if c.toNat < 32 then
    ['\\', 'u', '0', '0', Nat.digitChar (c.toNat / 16), Nat.digitChar (c.toNat % 16)]
  else [c]

/-- A string with its quotes. -/
def quote (s : String) : String :=
  String.ofList ('"' :: (s.toList.flatMap escapeChar ++ ['"']))

/-- An opening bracket, the items between commas, and a closing bracket. -/
def enclose (opening closing : Char) (items : List String) : String :=
  String.ofList [opening] ++ String.intercalate "," items ++ String.ofList [closing]

mutual

/-- The value on one line, without blanks. -/
def compact : Json → String
  | null => "null"
  | bool b => if b then "true" else "false"
  | number t => t
  | string s => quote s
  | array items => enclose '[' ']' (compactItems items)
  | object fields => enclose '\x7b' '\x7d' (compactFields fields)
  | garbled => "null"

/-- The items of an array, each on one line. -/
def compactItems : List Json → List String
  | [] => []
  | j :: js => compact j :: compactItems js

/-- The fields of an object, each on one line. -/
def compactFields : List (String × Json) → List String
  | [] => []
  | (key, j) :: fields => (quote key ++ ":" ++ compact j) :: compactFields fields

end

/-- A line break and the blanks in front of an item at the given depth. -/
def newline (depth : Nat) : String :=
  String.ofList ('\n' :: List.replicate (2 * depth) ' ')

/-- Items on lines of their own between brackets; nothing stands between the brackets of none. -/
def encloseLines (depth : Nat) (opening closing : Char) (items : List String) : String :=
  if items.isEmpty then
    String.ofList [opening, closing]
  else
    String.ofList [opening] ++ newline (depth + 1)
      ++ String.intercalate ("," ++ newline (depth + 1)) items
      ++ newline depth ++ String.ofList [closing]

mutual

/-- The value at the given depth, with one item or field a line. -/
def prettyAt (depth : Nat) : Json → String
  | null => "null"
  | bool b => if b then "true" else "false"
  | number t => t
  | string s => quote s
  | array items => encloseLines depth '[' ']' (prettyItems (depth + 1) items)
  | object fields => encloseLines depth '\x7b' '\x7d' (prettyFields (depth + 1) fields)
  | garbled => "null"

/-- The items of an array at the given depth. -/
def prettyItems (depth : Nat) : List Json → List String
  | [] => []
  | j :: js => prettyAt depth j :: prettyItems depth js

/-- The fields of an object at the given depth. -/
def prettyFields (depth : Nat) : List (String × Json) → List String
  | [] => []
  | (key, j) :: fields =>
      (quote key ++ ": " ++ prettyAt depth j) :: prettyFields depth fields

end

/-- The value with one item or field a line, indented by two blanks a level. -/
def pretty (j : Json) : String :=
  prettyAt 0 j

end Json
end Montage
