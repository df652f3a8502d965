import Montage.Rehearsal.Word

/-!
# Scripts

The programs that can be rehearsed: scripts of a small language.

**Input.** The tokens of a script.

**Algorithm.** Recursive descent. Every step takes a token, so their number bounds the depth. A choice
among patterns becomes a chain of two-way choices.

**Results.** `Script.ofText` gives the script of a text. What is not of the language is passed over.
-/

namespace Montage
namespace Rehearsal

/-- A redirection of the stream of a number. -/
structure Redirection where
  stream : Nat
  kind : String
  target : Word
  deriving Repr, DecidableEq

/-- A script. A command is kept with the number of lines that end after its beginning. -/
inductive Script where
  | nothing
  | group (body : Script) (redirections : List Redirection)
  | apart (body : Script)
  | command (linesAfter : Nat) (words : List Word) (redirections : List Redirection)
  | sequence (a b : Script)
  | both (a b : Script)
  | either (a b : Script)
  | negation (a : Script)
  | forEach (name : String) (words : Option (List Word)) (body : Script)
  | fits (w : Word) (patterns : List Word) (body otherwise : Script)
  | branch (condition body otherwise : Script)
  deriving Repr, DecidableEq

namespace Script

/-- Whether the first token is a keyword. -/
def startsWith (keyword : String) : List Token → Bool
  | .word w :: _ => w.bare? == some keyword
  | _ => false

/-- The tokens without separators in front. -/
def skipSeparators (ts : List Token) : List Token :=
  ts.dropWhile fun t => t == .operator "\n" || t == .operator ";" || t == .operator "&"

/-- Whether a list of commands ends here. -/
def atEnd : List Token → Bool
  | [] => true
  | .operator s :: _ => s == ";;" || s == ")"
  | .lines _ :: _ => false
  | .word w :: _ =>
      match w.bare? with
      | some s => ["done", "esac", "fi", "then", "else", "elif", "do", "\x7d"].contains s
      | none => false

/-- The redirections and the number of the stream that they are about. -/
def redirections : List (String × Nat × String) :=
  [(">", 1, ">"), ("1>", 1, ">"), ("2>", 2, ">"), (">>", 1, ">>"), ("1>>", 1, ">>"),
    ("2>>", 2, ">>"), (">&", 1, ">&"), ("1>&", 1, ">&"), ("2>&", 2, ">&"), ("<", 0, "<")]

/-- The words and redirections of a command, and the rest. -/
def commandParts : List Token → List Word × List Redirection × List Token
  | .word w :: ts =>
      let (words, redirections, rest) := commandParts ts
      (w :: words, redirections, rest)
  | .operator s :: .word w :: ts =>
      match redirections.lookup s with
      | some (stream, kind) =>
          let (words, redirections, rest) := commandParts ts
          (words, ⟨stream, kind, w⟩ :: redirections, rest)
      | none => ([], [], .operator s :: .word w :: ts)
  | .lines w :: ts =>
      let (words, redirections, rest) := commandParts ts
      (words, ⟨0, "<<", w⟩ :: redirections, rest)
  | ts => ([], [], ts)

/-- The patterns in front of a closing bracket, and the rest. -/
def patterns : List Token → List Word × List Token
  | .word w :: .operator "|" :: ts =>
      let (others, rest) := patterns ts
      (w :: others, rest)
  | .word w :: .operator ")" :: ts => ([w], ts)
  | ts => ([], ts.drop 1)

/-- The words that a loop runs over, if they are given, and the rest. -/
def loopWords (ts : List Token) : Option (List Word) × List Token :=
  if startsWith "in" ts then
    let (words, _, rest) := commandParts (ts.drop 1)
    (some words, rest)
  else
    (none, ts)

mutual

/-- Commands up to the end of their list, and the rest. -/
def readList : Nat → List Token → Script × List Token
  | 0, ts => (nothing, ts)
  | n + 1, ts =>
      let ts := skipSeparators ts
      if atEnd ts then
        (nothing, ts)
      else
        let (a, ts) := readCommand n ts
        let (a, ts) := readChain n a ts
        let (b, ts) := readList n ts
        (sequence a b, ts)

/-- What is joined to a command on its line, and the rest. -/
def readChain : Nat → Script → List Token → Script × List Token
  | 0, a, ts => (a, ts)
  | n + 1, a, ts =>
      match ts with
      | .operator "&&" :: ts =>
          let (b, ts) := readCommand n (skipSeparators ts)
          readChain n (both a b) ts
      | .operator "||" :: ts =>
          let (b, ts) := readCommand n (skipSeparators ts)
          readChain n (either a b) ts
      | ts => (a, ts)

/-- A command with the redirections after it, and the rest. -/
def readCommand : Nat → List Token → Script × List Token
  | 0, ts => (nothing, ts)
  | n + 1, ts =>
      let (a, ts) := readBare n ts
      match commandParts ts with
      | ([], redirections, rest) =>
          if redirections.isEmpty then (a, ts) else (group a redirections, rest)
      | _ => (a, ts)

/-- A command, and the rest. -/
def readBare : Nat → List Token → Script × List Token
  | 0, ts => (nothing, ts)
  | n + 1, ts =>
      if startsWith "!" ts then
        let (a, ts) := readCommand n (ts.drop 1)
        (negation a, ts)
      else if startsWith "for" ts then
        match ts.drop 1 with
        | .word name :: ts =>
            let (words, ts) := loopWords ts
            let (body, ts) := readList n ((skipSeparators ts).drop 1)
            (forEach (name.bare?.getD "") words body, ts.drop 1)
        | ts => (nothing, ts)
      else if startsWith "case" ts then
        match ts.drop 1 with
        | .word w :: ts => readChoices n w (ts.drop 1)
        | ts => (nothing, ts)
      else if startsWith "\x7b" ts then
        let (body, ts) := readList n (ts.drop 1)
        (body, ts.drop 1)
      else if ts.head? == some (.operator "(") then
        let (body, ts) := readList n (ts.drop 1)
        (apart body, ts.drop 1)
      else if startsWith "if" ts then
        readBranch n (ts.drop 1)
      else
        match commandParts ts with
        | ([], [], rest) => (nothing, rest.drop 1)
        | (words, redirections, rest) =>
            (command (ts.map Token.lineEnds).sum words redirections, rest)

/-- The choices for a word up to their end, and the rest. -/
def readChoices : Nat → Word → List Token → Script × List Token
  | 0, _, ts => (nothing, ts)
  | n + 1, w, ts =>
      let ts := skipSeparators ts
      if ts.isEmpty || startsWith "esac" ts then
        (nothing, ts.drop 1)
      else
        let ts := if ts.head? == some (.operator "(") then ts.drop 1 else ts
        let (patterns, ts) := patterns ts
        let (body, ts) := readList n ts
        let ts := if ts.head? == some (.operator ";;") then ts.drop 1 else ts
        let (others, ts) := readChoices n w ts
        (fits w patterns body others, ts)

/-- A condition and what depends on it, and the rest. -/
def readBranch : Nat → List Token → Script × List Token
  | 0, ts => (nothing, ts)
  | n + 1, ts =>
      let (condition, ts) := readList n ts
      let (body, ts) := readList n (ts.drop 1)
      if startsWith "elif" ts then
        let (others, ts) := readBranch n (ts.drop 1)
        (branch condition body others, ts)
      else if startsWith "else" ts then
        let (others, ts) := readList n (ts.drop 1)
        (branch condition body others, ts.drop 1)
      else
        (branch condition body nothing, ts.drop 1)

end

/-- The script of a text. -/
def ofText (s : String) : Script :=
  let ts := Token.ofText s
  (readList (5 * ts.length + 5) ts).1

end Script
end Rehearsal
end Montage
