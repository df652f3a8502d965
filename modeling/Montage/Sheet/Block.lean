import Montage.Sheet.Token
import Montage.Style.Declaration

/-!
# Declaration blocks

The entries between the brackets of a rule, or in a style attribute.

**Input.** The lexemes of the block.

**Algorithm.** The block is cut into entries at semicolons outside brackets. An entry is a name, a
colon and a nonempty value, which is kept as it is written; every other entry is malformed.

**Results.** A block gives its entries in order, well-formed or not (`steps`). A style attribute
keeps the well-formed ones (`parseInline`).
-/

namespace Montage
namespace Sheet

/-- The open brackets after a token: an opening bracket is added, a closing bracket removes the
innermost one if it fits and is skipped otherwise. -/
def Token.nest (open? : List Bracket) : Token → List Bracket
  | .opening b => b :: open?
  | .closing b =>
      match open? with
      | o :: rest => if o = b then rest else open?
      | [] => []
  | _ => open?

/-- The lexemes up to the first that `stop` accepts outside the brackets opened here, and the
rest. -/
def cutAt (stop : Token → Bool) : List Bracket → List Lexeme → List Lexeme × List Lexeme
  | _, [] => ([], [])
  | open?, l :: ls =>
      if open?.isEmpty && stop l.token then
        ([], l :: ls)
      else
        let (front, back) := cutAt stop (l.token.nest open?) ls
        (l :: front, back)

/-- Whether a token is a semicolon. -/
def Token.isSemicolon (t : Token) : Bool :=
  t == .semicolon

/-- Whether a token opens a curly bracket. -/
def Token.opensCurly (t : Token) : Bool :=
  t == .opening .curly

/-- Whether a token closes a curly bracket. -/
def Token.closesCurly (t : Token) : Bool :=
  t == .closing .curly

/-- Whether a token is a blank or a comment. -/
def Token.isSpace (t : Token) : Bool :=
  t == .blank || t == .comment

/-- The lexemes after leading blanks and comments. -/
def skipSpace (ls : List Lexeme) : List Lexeme :=
  ls.dropWhile fun l => l.token.isSpace

/-- The text of lexemes without blanks around it. -/
def trimmedText (ls : List Lexeme) : String :=
  String.ofList (Text.trim (textOf ls))

/-- An entry of a block; a malformed one is kept with its text, through its semicolon. -/
inductive Entry where
  | declaration (d : Declaration)
  | malformed (text : String)
  deriving Repr, DecidableEq

namespace Entry

/-- The value of an entry after its name: a colon and a nonempty text. -/
def value? (ls : List Lexeme) : Option String :=
  match skipSpace ls with
  | ⟨.colon, _⟩ :: rest =>
      let value := trimmedText rest
      if value.isEmpty then none else some value
  | _ => none

/-- The entry of lexemes that hold no semicolon outside brackets, `text` being what is shown if
they are malformed. -/
def ofLexemes (text : String) : List Lexeme → Entry
  | ⟨.ident name, _⟩ :: rest =>
      match value? rest with
      | some value => declaration ⟨String.ofList (Text.lower name.toList), value⟩
      | none => malformed text
  | _ => malformed text

end Entry

/-- Whether a token between entries is skipped. -/
def Token.isSeparator (t : Token) : Bool :=
  t.isSpace || t.isSemicolon || t.closesCurly

/-- One entry of a block. `unread` is left of the block when the entry is judged, and `rest` when
the next entry is looked for. -/
structure Step where
  entry : Entry
  unread : List Lexeme
  rest : List Lexeme

/-- Whether a token ends the head of an at-rule: a semicolon, or the curly bracket of its block. -/
def Token.endsAtRule (t : Token) : Bool :=
  t.isSemicolon || t.opensCurly

/-- The lexemes after the semicolon or the curly brackets that end an at-rule. -/
def afterAtRule : List Lexeme → List Lexeme
  | [] => []
  | l :: ls =>
      if l.token.opensCurly then (cutAt Token.closesCurly [] ls).2.drop 1 else ls

/-- The entry that begins with the given lexemes. -/
def Step.ofLexemes (ls : List Lexeme) : Step :=
  match ls with
  | ⟨.atKeyword _, _⟩ :: _ =>
      let (front, back) := cutAt Token.endsAtRule [] ls
      ⟨.malformed (trimmedText front), back.drop 1, afterAtRule back⟩
  | _ =>
      let (front, back) := cutAt Token.isSemicolon [] ls
      ⟨.ofLexemes (trimmedText (front ++ back.take 1)) front, back.drop 1, back.drop 1⟩

/-- The steps through a block. The first argument bounds their number. -/
def stepsWithin : Nat → List Lexeme → List Step
  | 0, _ => []
  | fuel + 1, ls =>
      match ls.dropWhile fun l => l.token.isSeparator with
      | [] => []
      | l :: rest =>
          let step := Step.ofLexemes (l :: rest)
          step :: stepsWithin fuel step.rest

/-- The steps through a block; each takes at least one lexeme. -/
def steps (ls : List Lexeme) : List Step :=
  stepsWithin ls.length ls

/-- The well-formed entries among steps. -/
def declarations (ss : List Step) : List Declaration :=
  ss.filterMap fun s =>
    match s.entry with
    | .declaration d => some d
    | .malformed _ => none

/-- The first malformed entry among steps: what is shown of it, and what is left of the block. -/
def firstMalformed? (ss : List Step) : Option (String × List Lexeme) :=
  ss.findSome? fun s =>
    match s.entry with
    | .declaration _ => none
    | .malformed text => some (text, s.unread)

/-- The declarations of a style attribute; malformed entries are skipped. -/
def parseInline (s : String) : List Declaration :=
  declarations (steps (lexemes s.toList))

end Sheet
end Montage
