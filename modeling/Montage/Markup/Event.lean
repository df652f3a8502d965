import Montage.Decimal.Literal

/-!
# Markup events

A document text is a sequence of tags and texts between them.

**Input.** The text of a document, as a list of characters.

**Algorithm.** The text is cut at each opening bracket; a tag goes up to the first closing bracket
outside quotes. Comments, instructions and declarations are passed over. An end tag has to name the
innermost element that is open.

**Results.** `Event.ofText` gives the events in order; where the text is no markup they end with
`Event.fault`.
-/

namespace Montage
namespace Markup

/-- A tag or a text. -/
inductive Event where
  | start (name : String) (attributes : List (String × String))
  | empty (name : String) (attributes : List (String × String))
  | stop
  | text (s : String)
  | ignored
  | fault
  deriving Repr, DecidableEq

/-- The blanks inside tags. -/
def isTagBlank (c : Char) : Bool :=
  c == ' ' || c == '\t' || c == '\n' || c == '\r'

/-- The value of a nonempty run of digits in a base; digits that the base lacks are a fault. -/
def numeral? (base : Nat) (cs : List Char) : Option Nat :=
  if cs.isEmpty then
    none
  else
    cs.foldlM (fun n c => do
      let d ← Decimal.hexDigit? c
      if d < base then some (base * n + d) else none) 0

/-- The character of a number other than zero. -/
def numbered? (n : Nat) : Option Char :=
  if n = 0 ∨ ¬ n.isValidChar then none else some (Char.ofNat n)

/-- The character that a reference between `&` and `;` stands for. -/
def reference? : List Char → Option Char
  | '#' :: 'x' :: cs => (numeral? 16 cs).bind numbered?
  | '#' :: cs => (numeral? 10 cs).bind numbered?
  | cs =>
      [("lt", '<'), ("gt", '>'), ("amp", '&'), ("apos", '\''), ("quot", '"')].lookup
        (String.ofList cs)

/-- A text with its references replaced. The first argument holds a reference that has begun. -/
def unescapeFrom : Option (List Char) → List Char → Option (List Char)
  | none, [] => some []
  | some _, [] => none
  | none, c :: cs =>
      if c = '&' then unescapeFrom (some []) cs else (unescapeFrom none cs).map (c :: ·)
  | some name, c :: cs =>
      if c = '&' then
        none
      else if c = ';' then do
        let d ← reference? name
        let rest ← unescapeFrom none cs
        some (d :: rest)
      else
        unescapeFrom (some (name ++ [c])) cs

/-- A text with its references replaced. -/
def unescape? (cs : List Char) : Option (List Char) :=
  unescapeFrom none cs

/-- What stands up to the first `>` outside quotes, and the rest. -/
def cutTag : Option Char → List Char → Option (List Char × List Char)
  | _, [] => none
  | none, c :: cs =>
      if c = '>' then
        some ([], cs)
      else
        let quote? := if c = '"' ∨ c = '\'' then some c else none
        (cutTag quote? cs).map fun (front, back) => (c :: front, back)
  | some q, c :: cs =>
      (cutTag (if c = q then none else some q) cs).map fun (front, back) => (c :: front, back)

/-- One attribute: its name, its raw value, and the rest of the tag. The text starts with the
name. -/
def attribute? : List Char → Option (List Char × List Char × List Char)
  | [] => none
  | c :: cs =>
      let isEnd (d : Char) := d == '=' || isTagBlank d
      let name := c :: cs.takeWhile fun d => !isEnd d
      let rest := (cs.dropWhile fun d => !isEnd d).dropWhile isTagBlank
      match rest with
      | '=' :: rest =>
          match rest.dropWhile isTagBlank with
          | q :: rest =>
              if q = '"' ∨ q = '\'' then
                (Text.splitFirst? q rest).map fun (value, rest) => (name, value, rest)
              else
                none
          | [] => none
      | _ => none

/-- The attributes of a tag after its name. The first argument bounds their number. -/
def attributesWithin : Nat → List Char → Option (List (String × String))
  | 0, _ => none
  | fuel + 1, cs =>
      match cs.dropWhile isTagBlank with
      | [] => some []
      | c :: cs => do
          let (name, value, rest) ← attribute? (c :: cs)
          let value ← unescape? value
          let others ← attributesWithin fuel rest
          let name := String.ofList name
          if (others.map Prod.fst).contains name then
            none
          else
            some ((name, String.ofList value) :: others)

/-- The name of a tag and its attributes. -/
def tag? (cs : List Char) : Option (String × List (String × String)) :=
  let name := cs.takeWhile fun c => !isTagBlank c
  let rest := cs.dropWhile fun c => !isTagBlank c
  (attributesWithin (rest.length + 1) rest).map fun attributes => (String.ofList name, attributes)

/-- The name of a tag. -/
def tagName (cs : List Char) : List Char :=
  cs.takeWhile fun c => !isTagBlank c

/-- The name in an end tag: blanks after it do not count, but a tag of blanks alone is no empty
name. -/
def endTagName (cs : List Char) : List Char :=
  if cs.all isTagBlank then cs else (cs.reverse.dropWhile isTagBlank).reverse

/-- What follows a declaration, with as many closing as opening brackets in it, and what it
holds. -/
def cutDeclaration : Nat → List Char → Option (List Char × List Char)
  | _, [] => none
  | depth, c :: cs =>
      if c = '>' ∧ depth = 0 then
        some ([], cs)
      else
        let depth := if c = '<' then depth + 1 else if c = '>' then depth - 1 else depth
        (cutDeclaration depth cs).map fun (front, back) => (c :: front, back)

/-- An event, the names of the elements that are open after it, and the text after it. -/
structure Piece where
  event : Event
  names : List (List Char)
  rest : List Char

/-- The piece after `<!`: a comment, verbatim text, or a declaration. -/
def bang? (names : List (List Char)) (cs : List Char) : Option Piece :=
  match Text.stripStart? "--".toList cs with
  | some cs => (Text.splitText? "-->".toList cs).map fun (_, rest) => ⟨.ignored, names, rest⟩
  | none =>
      match Text.stripStart? "[CDATA[".toList cs with
      | some cs =>
          (Text.splitText? "]]>".toList cs).map fun (body, rest) =>
            ⟨.text (String.ofList body), names, rest⟩
      | none =>
          if Text.lower (cs.take 7) = "doctype".toList then
            (cutDeclaration 0 (cs.drop 7)).bind fun (body, rest) =>
              if body.all isTagBlank then none else some ⟨.ignored, names, rest⟩
          else
            none

/-- The piece after `<?`. -/
def instruction? (names : List (List Char)) (cs : List Char) : Option Piece :=
  if cs.head? == some '>' then
    none
  else
    (Text.splitText? "?>".toList cs).map fun (_, rest) => ⟨.ignored, names, rest⟩

/-- The piece after `</`. -/
def endTag? (names : List (List Char)) (cs : List Char) : Option Piece := do
  let (body, rest) ← cutTag none cs
  match names with
  | [] => none
  | name :: names => if endTagName body = name then some ⟨.stop, names, rest⟩ else none

/-- The piece of a tag that opens an element or is one. -/
def startTag? (names : List (List Char)) (cs : List Char) : Option Piece := do
  let (body, rest) ← cutTag none cs
  match Text.stripEnd? ['/'] body with
  | some body =>
      let (name, attributes) ← tag? body
      some ⟨.empty name attributes, names, rest⟩
  | none =>
      let (name, attributes) ← tag? body
      some ⟨.start name attributes, tagName body :: names, rest⟩

/-- The piece after `<`. -/
def markup? (names : List (List Char)) : List Char → Option Piece
  | [] => none
  | '!' :: cs => bang? names cs
  | '?' :: cs => instruction? names cs
  | '/' :: cs => endTag? names cs
  | c :: cs => startTag? names (c :: cs)

/-- The piece at the beginning of a text. -/
def piece? (names : List (List Char)) : List Char → Option Piece
  | '<' :: cs => markup? names cs
  | cs =>
      (unescape? (cs.takeWhile (· != '<'))).map fun s =>
        ⟨.text (String.ofList s), names, cs.dropWhile (· != '<')⟩

/-- The events of a text. The first argument bounds their number. -/
def eventsWithin : Nat → List (List Char) → List Char → List Event
  | _, _, [] => []
  | 0, _, _ => []
  | fuel + 1, names, cs =>
      match piece? names cs with
      | some p => p.event :: eventsWithin fuel p.names p.rest
      | none => [.fault]

/-- The events of a document text. A mark of byte order in front does not count. -/
def Event.ofText (s : String) : List Event :=
  let cs := match s.toList with
    | c :: cs => if c.toNat = 0xFEFF then cs else c :: cs
    | [] => []
  eventsWithin cs.length [] cs

end Markup
end Montage
