import Montage.Text.Split

/-!
# Words of a shell

How the arguments of a command are written on one line, so that a shell reads them back.

**Input.** Arguments, or a line.

**Algorithm.** An argument of harmless characters stands bare. Every other argument stands between
single quotes, and a quote inside it is written as a closing quote, an escaped quote and an opening
quote. A reader takes apart the words at blanks; a line in which the shell would do more than that is
refused.

**Results.** `Shell.quote` writes an argument, `Shell.words?` reads a line.
-/

namespace Montage
namespace Shell

/-- The characters that stand for themselves wherever they are. -/
def isPlain (c : Char) : Bool :=
  c.isAlphanum || "-_./:=+,".toList.contains c

/-- An argument as it is written. -/
def quote (cs : List Char) : List Char :=
  if !cs.isEmpty && cs.all isPlain then
    cs
  else
    '\'' :: (Text.replaceChar '\'' "'\\''".toList cs ++ ['\''])

/-- Arguments on one line. -/
def line (args : List (List Char)) : List Char :=
  List.intercalate [' '] (args.map quote)

/-- The blanks between words. -/
def isGap (c : Char) : Bool :=
  c == ' ' || c == '\t' || c == '\n'

/-- The characters by which a shell does more than to take apart words. -/
def isActive (c : Char) : Bool :=
  "\"$`&|;<>()\x7b\x7d*?[]#~!%".toList.contains c

/-- The words of a line, `word` being the one that has begun, and `quoted` telling whether a quote
is open. -/
def wordsFrom : Bool → Option (List Char) → List Char → Option (List (List Char))
  | true, _, [] => none
  | false, word, [] => some word.toList
  | true, word, c :: cs =>
      if c = '\'' then wordsFrom false (some (word.getD [])) cs
      else wordsFrom true (some (word.getD [] ++ [c])) cs
  | false, word, c :: cs =>
      if c = '\'' then
        wordsFrom true (some (word.getD [])) cs
      else if c = '\\' then
        match cs with
        | [] => none
        | d :: ds => wordsFrom false (some (word.getD [] ++ [d])) ds
      else if isGap c then
        (wordsFrom false none cs).map (word.toList ++ ·)
      else if isActive c then
        none
      else
        wordsFrom false (some (word.getD [] ++ [c])) cs

/-- The words of a line. -/
def words? (cs : List Char) : Option (List (List Char)) :=
  wordsFrom false none cs

end Shell
end Montage
