import Montage.Decimal.Literal

/-!
# Tokens of style sheets

Style sheets are cut into tokens by the rules of CSS syntax.

**Input.** The text of a sheet or of a style attribute, as a list of characters.

**Algorithm.** At each position the first character and what follows it decide the kind of the token
and its length. Strings, comments, addresses and brackets that are left open end with the text.

**Results.** The lexemes joined together are the text (`lexemes_text`).
-/

namespace Montage
namespace Sheet

/-- The three kinds of brackets. -/
inductive Bracket where
  | round
  | square
  | curly
  deriving Repr, DecidableEq

/-- A token. Names stand for themselves, with their escapes undone; a function opens a round
bracket. Tokens that the grammar never asks for are `other`. -/
inductive Token where
  | blank
  | comment
  | hidden
  | ident (name : String)
  | atKeyword (name : String)
  | colon
  | semicolon
  | opening (b : Bracket)
  | closing (b : Bracket)
  | other
  deriving Repr, DecidableEq

/-- A token with the text that it was read from. -/
structure Lexeme where
  token : Token
  text : List Char
  deriving Repr, DecidableEq

namespace Token

/-- The characters that end a line. -/
def isNewline (c : Char) : Bool :=
  c == '\n' || c == '\r' || c == '\x0c'

/-- The characters that a name may begin with. -/
def isNameStart (c : Char) : Bool :=
  ('a' ≤ c && c ≤ 'z') || ('A' ≤ c && c ≤ 'Z') || c == '_' || c.toNat == 0 || 0x80 ≤ c.toNat

/-- The characters that a name may go on with. -/
def isNameChar (c : Char) : Bool :=
  isNameStart c || Decimal.isDigit c || c == '-'

/-- Whether a text begins with a line end. -/
def atNewline : List Char → Bool
  | c :: _ => isNewline c
  | [] => false

/-- Whether a text begins with a digit. -/
def atDigit : List Char → Bool
  | c :: _ => Decimal.isDigit c
  | [] => false

/-- Whether a name starts here. -/
def atName : List Char → Bool
  | '-' :: c :: _ => isNameStart c || c == '-' || c == '\\'
  | '\\' :: cs => !atNewline cs
  | c :: _ => isNameStart c
  | [] => false

/-- The length of a line end at the beginning of a text. -/
def newlineLength : List Char → Nat
  | '\r' :: '\n' :: _ => 2
  | c :: _ => if isNewline c then 1 else 0
  | [] => 0

/-- The length of one blank or line end that closes a numeric escape. -/
def escapeEndLength : List Char → Nat
  | ' ' :: _ => 1
  | '\t' :: _ => 1
  | cs => newlineLength cs

/-- The character of a number, and the replacement character where there is none. -/
def codePoint (n : Nat) : Char :=
  if n = 0 ∨ ¬ n.isValidChar then Char.ofNat 0xFFFD else Char.ofNat n

/-- The character that an escape stands for, and the length of the escape after its backslash. -/
def escape : List Char → Char × Nat
  | [] => (Char.ofNat 0xFFFD, 0)
  | c :: cs =>
      let digits := ((c :: cs).take 6).takeWhile fun d => (Decimal.hexDigit? d).isSome
      if digits.isEmpty then
        (if c.toNat = 0 then Char.ofNat 0xFFFD else c, 1)
      else
        let value := digits.foldl (fun n d => 16 * n + (Decimal.hexDigit? d).getD 0) 0
        (codePoint value, digits.length + escapeEndLength ((c :: cs).drop digits.length))

/-- A name and its length. The first argument counts characters of an escape that is already
read. -/
def name : Nat → List Char → List Char × Nat
  | _, [] => ([], 0)
  | skip + 1, _ :: cs =>
      let (value, n) := name skip cs
      (value, n + 1)
  | 0, c :: cs =>
      if c = '\\' then
        if atNewline cs then
          ([], 0)
        else
          let (value, n) := name (escape cs).2 cs
          ((escape cs).1 :: value, n + 1)
      else if isNameChar c then
        let (value, n) := name 0 cs
        (if c.toNat = 0 then Char.ofNat 0xFFFD :: value else c :: value, n + 1)
      else
        ([], 0)

/-- The length of a string after its opening quote: through the closing quote, or up to a line end
that is not escaped. -/
def stringLength (quote : Char) : Nat → List Char → Nat
  | _, [] => 0
  | skip + 1, _ :: cs => stringLength quote skip cs + 1
  | 0, c :: cs =>
      if c = quote then 1
      else if isNewline c then 0
      else if c = '\\' then
        let skip := if atNewline cs then newlineLength cs else (escape cs).2
        stringLength quote skip cs + 1
      else stringLength quote 0 cs + 1

/-- The length of a comment after its opening mark. -/
def commentLength : List Char → Nat
  | '*' :: '/' :: _ => 2
  | _ :: cs => commentLength cs + 1
  | [] => 0

/-- The length of what follows a fault in an address, through its closing bracket. -/
def faultyAddressLength : List Char → Nat
  | ')' :: _ => 1
  | '\\' :: ')' :: cs => faultyAddressLength cs + 2
  | '\\' :: '\\' :: cs => faultyAddressLength cs + 2
  | _ :: cs => faultyAddressLength cs + 1
  | [] => 0

/-- The length of the blanks after an address and its closing bracket. -/
def addressEndLength : List Char → Nat
  | [] => 0
  | c :: cs =>
      if c = ')' then 1
      else if Text.isAsciiBlank c then addressEndLength cs + 1
      else faultyAddressLength cs + 1

/-- The characters that an address without quotes cannot hold. -/
def isAddressFault (c : Char) : Bool :=
  let n := c.toNat
  (1 ≤ n && n ≤ 8) || n == 0x0B || (0x0E ≤ n && n ≤ 0x1F) || n == 0x7F
    || c == '"' || c == '\'' || c == '('

/-- The length of an address without quotes, through its closing bracket. -/
def addressLength : Nat → List Char → Nat
  | _, [] => 0
  | skip + 1, _ :: cs => addressLength skip cs + 1
  | 0, c :: cs =>
      if c = ')' then 1
      else if Text.isAsciiBlank c then addressEndLength cs + 1
      else if isAddressFault c then faultyAddressLength cs + 1
      else if c = '\\' then
        if atNewline cs then faultyAddressLength cs + 1
        else addressLength (escape cs).2 cs + 1
      else addressLength 0 cs + 1

/-- The length of what follows `url(` if it is an address without quotes. -/
def address? (cs : List Char) : Option Nat :=
  let blanks := (cs.takeWhile Text.isAsciiBlank).length
  match cs.drop blanks with
  | '"' :: _ => none
  | '\'' :: _ => none
  | ')' :: _ => some (blanks + 1)
  | rest => some (blanks + addressLength 0 rest)

/-- The length of a run of digits. -/
def digitsLength (cs : List Char) : Nat :=
  (cs.takeWhile Decimal.isDigit).length

/-- The length of a point and the digits after it. -/
def fractionLength : List Char → Nat
  | '.' :: cs => if atDigit cs then digitsLength cs + 1 else 0
  | _ => 0

/-- The length of an exponent. -/
def exponentLength : List Char → Nat
  | [] => 0
  | c :: cs =>
      if c = 'e' ∨ c = 'E' then
        match cs with
        | '+' :: ds => if atDigit ds then digitsLength ds + 2 else 0
        | '-' :: ds => if atDigit ds then digitsLength ds + 2 else 0
        | _ => if atDigit cs then digitsLength cs + 1 else 0
      else
        0

/-- The length of a percent sign or of a unit after a number. -/
def unitLength (cs : List Char) : Nat :=
  match cs with
  | '%' :: _ => 1
  | _ => if atName cs then (name 0 cs).2 else 0

/-- The length of a number without its sign, and of its unit. -/
def numberLength (cs : List Char) : Nat :=
  let whole := digitsLength cs
  let n := whole + fractionLength (cs.drop whole)
  let n := n + exponentLength (cs.drop n)
  n + unitLength (cs.drop n)

/-- Whether a number without sign starts here. -/
def atNumber : List Char → Bool
  | '.' :: cs => atDigit cs
  | cs => atDigit cs

/-- The token of a name that starts here, and its length. -/
def nameToken (cs : List Char) : Token × Nat :=
  let (value, n) := name 0 cs
  match cs.drop n with
  | '(' :: rest =>
      if Text.lower value = "url".toList then
        match address? rest with
        | some k => (other, n + 1 + k)
        | none => (opening .round, n + 1)
      else
        (opening .round, n + 1)
  | _ => (ident (String.ofList value), n)

/-- The token that starts with `c` and goes on in `cs`, and its length. -/
def scan (c : Char) (cs : List Char) : Token × Nat :=
  if Text.isAsciiBlank c then (blank, 1 + (cs.takeWhile Text.isAsciiBlank).length)
  else if c = '"' ∨ c = '\'' then (other, 1 + stringLength c 0 cs)
  else if c = '(' then (opening .round, 1)
  else if c = ')' then (closing .round, 1)
  else if c = '[' then (opening .square, 1)
  else if c = ']' then (closing .square, 1)
  else if c = '\x7b' then (opening .curly, 1)
  else if c = '\x7d' then (closing .curly, 1)
  else if c = ':' then (colon, 1)
  else if c = ';' then (semicolon, 1)
  else if c = '#' then
    if atName cs || atDigit cs || cs.head? == some '-' then (other, 1 + (name 0 cs).2)
    else (other, 1)
  else if c = '@' then
    if atName cs then
      let (value, n) := name 0 cs
      (atKeyword (String.ofList value), 1 + n)
    else (other, 1)
  else if c = '/' ∧ cs.head? = some '*' then (comment, 2 + commentLength (cs.drop 1))
  else if c = '<' ∧ cs.take 3 = ['!', '-', '-'] then (hidden, 4)
  else if Decimal.isDigit c || c == '.' && atDigit cs then (other, numberLength (c :: cs))
  else if (c = '+' ∨ c = '-') ∧ atNumber cs then (other, 1 + numberLength cs)
  else if c = '-' ∧ cs.take 2 = ['-', '>'] then (hidden, 3)
  else if atName (c :: cs) then nameToken (c :: cs)
  else (other, 1)

end Token

/-- The lexemes of a text. The first argument counts characters that are already read. -/
def lexemesFrom : Nat → List Char → List Lexeme
  | _, [] => []
  | skip + 1, _ :: cs => lexemesFrom skip cs
  | 0, c :: cs =>
      let (token, n) := Token.scan c cs
      ⟨token, c :: cs.take (n - 1)⟩ :: lexemesFrom (n - 1) cs

/-- The lexemes of a text. -/
def lexemes (cs : List Char) : List Lexeme :=
  lexemesFrom 0 cs

/-- The text of lexemes in order. -/
def textOf (ls : List Lexeme) : List Char :=
  ls.flatMap Lexeme.text

theorem lexemesFrom_text (skip : Nat) (cs : List Char) :
    textOf (lexemesFrom skip cs) = cs.drop skip := by
  induction cs generalizing skip with
  | nil => cases skip <;> simp [lexemesFrom, textOf]
  | cons c cs ih =>
      cases skip with
      | zero =>
          have h := ih ((Token.scan c cs).2 - 1)
          simp only [textOf] at h
          simp [lexemesFrom, textOf, h]
      | succ skip => simpa [lexemesFrom] using ih skip

/-- Nothing of a text is lost in its lexemes. -/
@[simp] theorem lexemes_text (cs : List Char) : textOf (lexemes cs) = cs := by
  simp [lexemes, lexemesFrom_text]

end Sheet
end Montage
