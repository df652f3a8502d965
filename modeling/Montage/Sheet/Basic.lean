import Montage.Sheet.Block
import Montage.Sheet.Selector

/-!
# Style sheets

A sheet is a list of rules; a rule applies a block of declarations to the nodes that one of its
selectors addresses. The order of rules alone decides which declaration wins.

**Input.** The text of a sheet.

**Algorithm.** Rules are read one after another: the lexemes before the first curly bracket are the
selectors, those inside are the block. The first fault ends the reading.

**Results.** `Sheet.parse` gives the rules in order, or the first fault with its line.
-/

namespace Montage

/-- Selectors and the declarations for the nodes that they address. -/
structure Rule where
  selectors : List Selector
  declarations : List Declaration
  deriving Repr, DecidableEq

namespace Rule

/-- Whether one of the selectors addresses a node. -/
def selects (r : Rule) (node : Identity) (ancestors : List Identity) : Bool :=
  r.selectors.any fun s => s.selects node ancestors

end Rule

/-- What is wrong with a sheet. -/
inductive SheetFault where
  | selector (error : SelectorError)
  | malformed (entry : String)
  | unexpected (input : String)
  deriving Repr, DecidableEq

/-- The first fault of a sheet and the line on which it was found. -/
structure SheetError where
  fault : SheetFault
  line : Nat
  deriving Repr, DecidableEq

namespace SheetError

/-- The wording of an error. -/
def message (e : SheetError) : String :=
  let what := match e.fault with
    | .selector error => error.message
    | .malformed entry => s!"malformed declaration `{entry}`"
    | .unexpected input => s!"unexpected input `{input}`"
  s!"{what} (line {e.line.repr})"

end SheetError

namespace Sheet

/-- The line ends in a text; a return and a feed together are one. -/
def lineEnds : List Char → Nat
  | '\r' :: '\n' :: cs => lineEnds cs + 1
  | c :: cs => (if Token.isNewline c then 1 else 0) + lineEnds cs
  | [] => 0

/-- The line of a position, from the text before it. -/
def lineAfter (before : List Lexeme) : Nat :=
  lineEnds (textOf before) + 1

/-- The selectors between the commas of a rule's head. -/
def selectors (cs : List Char) : Except SelectorError (List Selector) :=
  (Text.splitAll ',' cs).mapM fun piece => Selector.parse (String.ofList piece)

/-- Whether a token between rules is skipped. -/
def Token.isBetweenRules (t : Token) : Bool :=
  t.isSpace || t == .hidden

/-- Whether a rule begins like a declaration of a custom name: two hyphens, and a colon next. -/
def declaresCustomName : List Lexeme → Bool
  | ⟨.ident name, _⟩ :: rest =>
      name.toList.take 2 == ['-', '-'] && (skipSpace rest).head?.map Lexeme.token == some .colon
  | _ => false

/-- The lexemes through the curly brackets that come first, and the rest. -/
def throughBlock (ls : List Lexeme) : List Lexeme × List Lexeme :=
  let (head, rest) := cutAt Token.opensCurly [] ls
  let (body, back) := cutAt Token.closesCurly [] (rest.drop 1)
  (head ++ rest.take 1 ++ body ++ back.take 1, back.drop 1)

/-- What stands at one place between rules: a rule or a fault, and the lexemes up to the next
place. `before` holds the lexemes in front. -/
def rule (before ls : List Lexeme) : Except SheetError (Rule × List Lexeme × List Lexeme) :=
  if declaresCustomName ls then
    .error ⟨.unexpected (trimmedText (throughBlock ls).1), lineAfter before⟩
  else
    let (head, rest) := cutAt Token.opensCurly [] ls
    match rest with
    | [] => .error ⟨.unexpected (trimmedText ls), lineAfter (before ++ ls)⟩
    | brace :: rest =>
        match selectors (textOf head) with
        | .error e => .error ⟨.selector e, lineAfter (before ++ head)⟩
        | .ok selectors =>
            let (body, back) := cutAt Token.closesCurly [] rest
            let front := before ++ head ++ [brace]
            let block := steps body
            match firstMalformed? block with
            | some (text, unread) =>
                let seen := body.take (body.length - unread.length)
                .error ⟨.malformed text, lineAfter (front ++ seen)⟩
            | none =>
                .ok (⟨selectors, declarations block⟩, front ++ body ++ back.take 1, back.drop 1)

/-- The rules of a sheet. The first argument bounds their number; `first` tells whether no rule has
come before, which is where a character set may be named: that at-rule is passed over, with the block
that it may have. -/
def rulesWithin : Nat → Bool → List Lexeme → List Lexeme → Except SheetError (List Rule)
  | 0, _, _, _ => .ok []
  | fuel + 1, first, before, ls =>
      let skipped := ls.takeWhile fun l => l.token.isBetweenRules
      let before := before ++ skipped
      match ls.dropWhile fun l => l.token.isBetweenRules with
      | [] => .ok []
      | ⟨.atKeyword name, text⟩ :: rest =>
          let ls := ⟨.atKeyword name, text⟩ :: rest
          let (front, back) := cutAt Token.endsAtRule [] ls
          if first && Text.lower name.toList == "charset".toList then
            let rest := afterAtRule back
            rulesWithin fuel false (before ++ ls.take (ls.length - rest.length)) rest
          else
            .error ⟨.unexpected (trimmedText front), lineAfter (before ++ ls.take 1)⟩
      | l :: rest => do
          let (r, before, rest) ← rule before (l :: rest)
          let rs ← rulesWithin fuel false before rest
          .ok (r :: rs)

end Sheet

/-- A style sheet: its rules in order. -/
structure StyleSheet where
  rules : List Rule
  deriving Repr, DecidableEq

namespace StyleSheet

/-- The sheet without rules. -/
def empty : StyleSheet :=
  ⟨[]⟩

/-- Reads a sheet. -/
def parse (s : String) : Except SheetError StyleSheet :=
  let ls := Sheet.lexemes s.toList
  (Sheet.rulesWithin (ls.length + 1) true [] ls).map StyleSheet.mk

/-- The rules of two sheets, one after the other. -/
def append (a b : StyleSheet) : StyleSheet :=
  ⟨a.rules ++ b.rules⟩

instance : Append StyleSheet := ⟨append⟩

/-- The declarations for a node, given its ancestors from the parent outward: those of every rule
that addresses it, in the order of the rules. -/
def matching (s : StyleSheet) (node : Identity) (ancestors : List Identity) : List Declaration :=
  (s.rules.filter fun r => r.selects node ancestors).flatMap Rule.declarations

end StyleSheet
end Montage
