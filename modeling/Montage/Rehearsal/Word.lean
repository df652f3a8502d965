import Montage.Text.Split

/-!
# Words of scripts

The tokens of the little language in which rehearsed programs are written.

**Input.** The text of a script.

**Algorithm.** A word is made of texts and variables, each quoted or not. Single quotes keep all they
hold, double quotes keep all but variables, and a backslash keeps the next character. Words end at
blanks and at operators.

**Results.** `Token.ofText` gives the tokens in order.
-/

namespace Montage
namespace Rehearsal

/-- A part of a word. -/
inductive Part where
  | text (s : String) (quoted : Bool)
  | parameter (name : String) (quoted : Bool)
  deriving Repr, DecidableEq

/-- A word before its variables are replaced. -/
abbrev Word :=
  List Part

/-- A token: a word, an operator, or lines that are given to a command as its input. -/
inductive Token where
  | word (w : Word)
  | operator (s : String)
  | lines (w : Word)
  deriving Repr, DecidableEq

namespace Word

/-- The text of a word that has neither quotes nor variables. -/
def bare? (w : Word) : Option String :=
  let plain : Part → Option String
    | .text s false => some s
    | _ => none
  (w.mapM plain).map String.join

/-- The line ends in a word. -/
def lineEnds (w : Word) : Nat :=
  w.foldl (fun count part =>
    match part with
    | .text s _ => count + s.toList.count '\n'
    | .parameter _ _ => count) 0

/-- The characters that names are made of. -/
def isNameChar (c : Char) : Bool :=
  c.isAlphanum || c == '_'

/-- The name of a variable after its mark, and the rest. -/
def parameterName : List Char → Option (String × List Char)
  | '\x7b' :: cs =>
      let name := cs.takeWhile (· != '\x7d')
      some (String.ofList name, cs.drop (name.length + 1))
  | c :: cs =>
      if c.isDigit || "@*#?$".toList.contains c then
        some (String.ofList [c], cs)
      else if isNameChar c then
        let name := (c :: cs).takeWhile isNameChar
        some (String.ofList name, (c :: cs).drop name.length)
      else
        none
  | [] => none

/-- The parts up to a closing mark, and the rest; without a mark, all parts. The first argument bounds
their number. -/
def quotedWithin (mark? : Option Char) : Nat → List Char → Word × List Char
  | 0, cs => ([], cs)
  | _, [] => ([], [])
  | n + 1, c :: cs =>
      let text (c : Char) (cs : List Char) : Word × List Char :=
        let (parts, rest) := quotedWithin mark? n cs
        (.text (String.ofList [c]) true :: parts, rest)
      if mark? = some c then
        ([], cs)
      else if c = '\\' then
        match cs with
        | d :: ds =>
            if "$\\\x60".toList.contains d || mark? == some d then text d ds else text c cs
        | [] => text c cs
      else if c = '$' then
        match parameterName cs with
        | some (name, rest) =>
            let (parts, rest) := quotedWithin mark? n rest
            (.parameter name true :: parts, rest)
        | none => text c cs
      else
        text c cs

/-- The characters at which words end. -/
def isEnd (c : Char) : Bool :=
  " \t\n;&|<>()".toList.contains c

/-- A word and the rest. The first argument bounds the number of its parts. -/
def readWithin : Nat → List Char → Word × List Char
  | 0, cs => ([], cs)
  | _, [] => ([], [])
  | n + 1, c :: cs =>
      let after (own : Word) (rest : List Char) : Word × List Char :=
        let (parts, rest) := readWithin n rest
        (own ++ parts, rest)
      if c = '\'' then
        let inner := cs.takeWhile (· != '\'')
        after [.text (String.ofList inner) true] (cs.drop (inner.length + 1))
      else if c = '"' then
        let (inner, rest) := quotedWithin (some '"') (cs.length + 1) cs
        after (.text "" true :: inner) rest
      else if c = '\\' then
        match cs with
        | '\n' :: ds => after [] ds
        | d :: ds => after [.text (String.ofList [d]) true] ds
        | [] => ([.text "\\" true], [])
      else if c = '$' then
        match parameterName cs with
        | some (name, rest) => after [.parameter name false] rest
        | none => after [.text "$" false] cs
      else if isEnd c then
        ([], c :: cs)
      else
        after [.text (String.ofList [c]) false] cs

end Word

namespace Token

/-- The operators, longer ones before those that they begin with. A digit in front of a redirection
is the number of the stream. -/
def operators : List String :=
  [";;", "&&", "||", "2>>", "2>&", "2>", "1>>", "1>&", "1>", ">>", ">&", ">", "<<", "<", ";", "&", "|",
    "(", ")", "\n"]

/-- The lines up to one that is `last`, and the rest. Tabs in front of a line count unless `tabs` is
set, where they are dropped. -/
def linesUntil (tabs : Bool) (last : List Char) (cs : List Char) : List Char × List Char :=
  let lines := (Text.splitAll '\n' cs).map fun line =>
    if tabs then line.dropWhile (· == '\t') else line
  let body := lines.takeWhile (· != last)
  (body.flatMap (· ++ ['\n']), ['\n'].intercalate (lines.drop (body.length + 1)))

/-- Lines that are given as input after the mark for them: what they hold, and the text without
them. They begin after the current line and end before one that is the word after the mark. If that
word is quoted, variables in the lines are kept. -/
def linesAfter (cs : List Char) : Word × List Char :=
  let tabs := cs.head? == some '-'
  let cs := (if tabs then cs.drop 1 else cs).dropWhile (· == ' ')
  let (last, cs) := Word.readWithin (cs.length + 1) cs
  let text : Part → List Char
    | .text s _ => s.toList
    | .parameter name _ => '$' :: name.toList
  let line := cs.takeWhile (· != '\n')
  let (body, rest) := linesUntil tabs (last.flatMap text) (cs.drop (line.length + 1))
  let body :=
    if last.any fun part => part matches .text _ true then [.text (String.ofList body) true]
    else (Word.quotedWithin none (body.length + 1) body).1
  (body, line ++ '\n' :: rest)

/-- An operator and the rest. -/
def operator? (cs : List Char) : Option (String × List Char) :=
  operators.findSome? fun s => (Text.stripStart? s.toList cs).map fun rest => (s, rest)

/-- The tokens of a text. The first argument bounds their number. -/
def within : Nat → List Char → List Token
  | 0, _ => []
  | _, [] => []
  | n + 1, c :: cs =>
      if c = ' ' ∨ c = '\t' then
        within n cs
      else if c = '#' then
        within n (cs.dropWhile (· != '\n'))
      else
        match operator? (c :: cs) with
        | some ("<<", rest) =>
            let (w, rest) := linesAfter rest
            .lines w :: within n rest
        | some (s, rest) => .operator s :: within n rest
        | none =>
            let (w, rest) := Word.readWithin (cs.length + 2) (c :: cs)
            .word w :: within n rest

/-- The tokens of a text. -/
def ofText (s : String) : List Token :=
  within (s.length + 1) s.toList

/-- The line ends in a token; lines that are given as input have one more after them. -/
def lineEnds : Token → Nat
  | .operator s => if s = "\n" then 1 else 0
  | .word w => Word.lineEnds w
  | .lines w => Word.lineEnds w + 1

end Token
end Rehearsal
end Montage
