import Montage.Proofs.Sheet.Lookahead
import Montage.Proofs.Sheet.Values

/-!
# Comments in sheets

Where a comment may be written, and what becomes of it.

**Input.** A sheet with a blank between two tokens, and a text without the mark that ends comments.

**Algorithm.** The tokens in front of the blank do not see the comment, and those behind it begin anew.
What is left is one lexeme more at a known place.

**Results.**
* `StyleSheet.parse_comment`: a comment behind the blank changes nothing between rules, between entries,
  before a colon and in an at-rule, it makes the sheet faulty in the head of a rule, and it becomes a
  part of a value.
-/

namespace Montage
namespace Sheet

/-- A comment with its marks. -/
def comment (body : List Char) : List Char :=
  '/' :: '*' :: (body ++ ['*', '/'])

theorem commentLength_append {body : List Char} (h : ¬['*', '/'] <:+: body) (rest : List Char) :
    Token.commentLength (body ++ '*' :: '/' :: rest) = body.length + 2 := by
  induction body with
  | nil => rfl
  | cons c body ih =>
      have hmark : ¬(c = '*' ∧ (body ++ '*' :: '/' :: rest).head? = some '/') := by
        rintro ⟨rfl, hhead⟩
        cases body with
        | nil => exact absurd (Option.some.inj hhead) (by decide)
        | cons e body =>
            obtain rfl := Option.some.inj hhead
            exact h ⟨[], body, rfl⟩
      rw [List.cons_append, Token.commentLength_cons, if_neg hmark,
        ih fun hbody => h (hbody.trans (List.suffix_cons c body).isInfix)]
      rfl

/-- A comment is one lexeme, whatever follows it. -/
theorem lexemes_comment {body : List Char} (h : ¬['*', '/'] <:+: body) (rest : List Char) :
    lexemes (comment body ++ rest) = ⟨.comment, comment body⟩ :: lexemes rest := by
  have hcs : comment body ++ rest = '/' :: '*' :: (body ++ '*' :: '/' :: rest) := by simp [comment]
  have hscan : Token.scan '/' ('*' :: (body ++ '*' :: '/' :: rest)) =
      (.comment, 2 + Token.commentLength (body ++ '*' :: '/' :: rest)) :=
    rfl
  have hlen : 2 + (body.length + 2) - 1 = ('*' :: (body ++ ['*', '/'])).length := by
    simp
    omega
  have hmore : '*' :: (body ++ '*' :: '/' :: rest) = '*' :: (body ++ ['*', '/']) ++ rest := by simp
  rw [hcs, lexemes_cons, hscan, commentLength_append h]
  dsimp only
  rw [hlen, hmore, List.take_left, List.drop_left]
  rfl

/-- A blank lexeme holds all blanks up to what follows it. -/
theorem blanks_of_lexemes_eq_cons {cs w : List Char} {back : List Lexeme}
    (h : lexemes cs = ⟨.blank, w⟩ :: back) :
    (∀ c ∈ w, Text.isAsciiBlank c = true) ∧
      ∀ c ∈ (textOf back).head?, Text.isAsciiBlank c = false := by
  cases cs with
  | nil => exact absurd h.symm (List.cons_ne_nil _ _)
  | cons c cs =>
      rw [lexemes_cons] at h
      obtain ⟨hl, hback⟩ := List.cons.inj h
      have hc := Token.isAsciiBlank_of_scan (congrArg Lexeme.token hl)
      have hscan : (Token.scan c cs).2 - 1 = (cs.takeWhile Text.isAsciiBlank).length := by
        rw [Token.scan, if_pos hc, Nat.add_sub_cancel_left]
      have hsplit := List.takeWhile_append_dropWhile (p := Text.isAsciiBlank) (l := cs)
      have htake :=
        (List.prefix_iff_eq_take.1 (List.takeWhile_prefix Text.isAsciiBlank (l := cs))).symm
      have hdrop : cs.drop (cs.takeWhile Text.isAsciiBlank).length =
          cs.dropWhile Text.isAsciiBlank := by
        have hcs := List.take_append_drop (cs.takeWhile Text.isAsciiBlank).length cs
        rw [htake] at hcs
        exact List.append_cancel_left (hcs.trans hsplit.symm)
      have hw : c :: cs.takeWhile Text.isAsciiBlank = w := by
        have htext : c :: cs.take ((Token.scan c cs).2 - 1) = w := congrArg Lexeme.text hl
        rwa [hscan, htake] at htext
      constructor
      · rw [← hw]
        exact List.forall_mem_cons.2 ⟨hc, fun e he => List.mem_takeWhile_imp he⟩
      · rw [← hback, hscan, hdrop, lexemes_text]
        intro e he
        have hfirst := List.head?_dropWhile_not Text.isAsciiBlank cs
        rw [Option.mem_def.1 he] at hfirst
        exact hfirst

theorem lexemes_blanks {w : List Char} (hne : w ≠ []) (hw : ∀ c ∈ w, Text.isAsciiBlank c = true)
    {cs : List Char} (hcs : ∀ c ∈ cs.head?, Text.isAsciiBlank c = false) :
    lexemes (w ++ cs) = ⟨.blank, w⟩ :: lexemes cs := by
  obtain ⟨c, w, rfl⟩ := List.exists_cons_of_ne_nil hne
  obtain ⟨hc, hw⟩ := List.forall_mem_cons.1 hw
  have hstop : cs.takeWhile Text.isAsciiBlank = [] := by
    cases cs with
    | nil => rfl
    | cons e cs => exact List.takeWhile_cons_of_neg (Bool.eq_false_iff.1 (hcs e rfl))
  have hscan : Token.scan c (w ++ cs) = (.blank, 1 + w.length) := by
    rw [Token.scan, if_pos hc, List.takeWhile_append_of_pos hw, hstop, List.append_nil]
  rw [List.cons_append, lexemes_cons, hscan]
  dsimp only
  rw [Nat.add_sub_cancel_left, List.take_left, List.drop_left]

end Sheet

namespace StyleSheet

open Sheet

/-- The text of a sheet with a comment between two parts of a blank. -/
def commented (front back : List Lexeme) (u v body : List Char) : String :=
  String.ofList (textOf front ++ u ++ comment body ++ v ++ textOf back)

section

variable {s : String} {front back : List Lexeme} {u v body : List Char}

/-- The comment is a lexeme, and nothing else is another lexeme, unless the blank stands right behind an
opening round bracket: there an address may be read. -/
theorem lexemes_commented (hs : lexemes s.toList = front ++ ⟨.blank, u ++ v⟩ :: back) (hu : u ≠ [])
    (hbody : ¬['*', '/'] <:+: body)
    (hround : front.getLast?.map Lexeme.token ≠ some (.opening .round)) :
    ∃ more, (∀ l ∈ more, l.token = .blank) ∧ textOf more = v ∧
      lexemes (commented front back u v body).toList =
        front ++ ⟨.blank, u⟩ :: ⟨.comment, comment body⟩ :: (more ++ back) := by
  have hsuffix : lexemes (u ++ v ++ textOf back) = ⟨.blank, u ++ v⟩ :: back :=
    lexemes_text_eq_of_append hs
  have hsplit : lexemes s.toList = (front ++ [⟨.blank, u ++ v⟩]) ++ back := by
    rw [hs, List.append_assoc, List.singleton_append]
  have hback : lexemes (textOf back) = back := lexemes_text_eq_of_append hsplit
  obtain ⟨hblank, hstop⟩ := blanks_of_lexemes_eq_cons hsuffix
  obtain ⟨hublank, hvblank⟩ := List.forall_mem_append.1 hblank
  obtain ⟨more, hmore, hv, hmoreback⟩ : ∃ more, (∀ l ∈ more, l.token = .blank) ∧ textOf more = v ∧
      lexemes (v ++ textOf back) = more ++ back := by
    cases v with
    | nil => exact ⟨[], by simp, rfl, hback⟩
    | cons c v =>
        refine ⟨[⟨.blank, c :: v⟩], by simp, by simp [textOf], ?_⟩
        rw [lexemes_blanks (List.cons_ne_nil c v) hvblank hstop, hback, List.singleton_append]
  refine ⟨more, hmore, hv, ?_⟩
  have hrest : lexemes (u ++ (comment body ++ (v ++ textOf back))) =
      ⟨.blank, u⟩ :: ⟨.comment, comment body⟩ :: (more ++ back) := by
    rw [lexemes_blanks hu hublank (by simp [comment]; decide), lexemes_comment hbody, hmoreback]
  obtain ⟨d, w, rfl⟩ := List.exists_cons_of_ne_nil hu
  have hfront : lexemes (textOf front ++ d :: (w ++ v ++ textOf back)) =
      front ++ lexemes (d :: (w ++ v ++ textOf back)) := by
    have hcs : s.toList = textOf front ++ d :: (w ++ v ++ textOf back) := by
      rw [← lexemes_text s.toList, hs]
      simp [textOf]
    have hsuffix : lexemes (d :: (w ++ v ++ textOf back)) = ⟨.blank, d :: w ++ v⟩ :: back := hsuffix
    rw [← hcs, hs, hsuffix]
  have hlast : ∀ ls l, front = ls ++ [l] → l.token ≠ .opening .round := by
    rintro ls l rfl hl
    rw [List.getLast?_concat, Option.map_some, hl] at hround
    exact hround rfl
  have hlocal := lexemes_append_blank (hublank d List.mem_cons_self) hfront hlast
    (w ++ (comment body ++ (v ++ textOf back)))
  rw [List.cons_append] at hrest
  rw [hrest] at hlocal
  simpa [commented] using hlocal

/-- Outside heads and values a comment behind a blank says nothing. In the head of a rule it makes the
sheet faulty. In a value it becomes a part of the value, and nothing else changes. -/
theorem parse_comment (hs : lexemes s.toList = front ++ ⟨.blank, u ++ v⟩ :: back) (hu : u ≠ [])
    (hbody : ¬['*', '/'] <:+: body)
    (hround : front.getLast?.map Lexeme.token ≠ some (.opening .round)) :
    ((Place.rules.after front).isGap = true →
      (parse (commented front back u v body)).toOption = (parse s).toOption) ∧
    ((Place.rules.after front).isHead = true →
      (parse (commented front back u v body)).toOption = none) ∧
    ((Place.rules.after front).isValue = true → ∀ sheet, parse s = .ok sheet →
      ∃ pre post sheet', pre <:+ front ∧ post <+: back ∧
        parse (commented front back u v body) = .ok sheet' ∧
        RevaluedRules
          (String.ofList (Text.trim (textOf pre ++ u ++ v ++ textOf post)))
          (String.ofList (Text.trim (textOf pre ++ u ++ comment body ++ v ++ textOf post)))
          sheet.rules sheet'.rules) := by
  obtain ⟨more, hmore, hv, hlexemes⟩ := lexemes_commented hs hu hbody hround
  have hmid : ∀ l ∈ [(⟨.blank, u ++ v⟩ : Lexeme)], l.token.isSpace = true := by simp [Token.isSpace]
  have hmid' : ∀ l ∈ ⟨.blank, u⟩ :: ⟨.comment, comment body⟩ :: more, l.token.isSpace = true := by
    simp +contextual [Token.isSpace, hmore]
  refine ⟨fun hgap => ?_, fun hhead => ?_, fun hvalue sheet hsheet => ?_⟩
  · have hspaces := sheet?_spaces hgap hmid true back
    have hspaces' := sheet?_spaces hgap hmid' true back
    rw [toOption_parse, toOption_parse, hlexemes, hs]
    exact congrArg _ (hspaces'.trans hspaces.symm)
  · have hplace : (Place.rules.after (front ++ [⟨.blank, u⟩])).isHead = true := by
      rw [Place.after_append, Place.after_cons, Place.step_of_isSpace _ rfl]
      exact hhead
    have hfaulty := sheet?_faulty hplace (c := ⟨.comment, comment body⟩) rfl List.mem_cons_self true
      (more ++ back)
    rw [List.append_assoc, List.singleton_append] at hfaulty
    rw [toOption_parse, hlexemes, hfaulty]
    rfl
  · have hslash : ∃ c ∈ textOf (⟨.blank, u⟩ :: ⟨.comment, comment body⟩ :: more),
        Text.isBlank c = false := ⟨'/', by simp [textOf, comment], rfl⟩
    rw [parse_eq_ok, hs] at hsheet
    obtain ⟨pre, post, rs, hpre, hpost, hrs, hrules⟩ := sheet?_revalued hmid hmid' hslash hvalue hsheet
    refine ⟨pre, post, ⟨rs⟩, hpre, hpost, ?_, ?_⟩
    · rw [parse_eq_ok, hlexemes]
      exact hrs
    · subst hv
      simpa [trimmedText, textOf] using hrules

end

theorem parse_comment_places :
    (parse "vid \x7b width /* c */: 1px \x7d").toOption =
        (parse "vid \x7b width : 1px \x7d").toOption ∧
      (parse "vid /* c */\x7b width : 1px \x7d").toOption = none ∧
      ∃ value value' sheet, parse "vid \x7b width : 1px /* c */\x7d" = .ok sheet ∧
        RevaluedRules value value' [⟨[⟨[], .element "vid"⟩], [⟨"width", "1px"⟩]⟩] sheet.rules := by
  have hbody : ¬['*', '/'] <:+: [' ', 'c', ' '] := by decide
  have hname : lexemes "vid \x7b width : 1px \x7d".toList =
      (lexemes "vid \x7b width ".toList).take 5 ++ ⟨.blank, [' '] ++ []⟩ ::
        lexemes ": 1px \x7d".toList := by
    decide
  have hhead : lexemes "vid \x7b width : 1px \x7d".toList =
      (lexemes "vid ".toList).take 1 ++ ⟨.blank, [' '] ++ []⟩ ::
        lexemes "\x7b width : 1px \x7d".toList := by
    decide
  have hvalue : lexemes "vid \x7b width : 1px \x7d".toList =
      (lexemes "vid \x7b width : 1px".toList).take 9 ++ ⟨.blank, [' '] ++ []⟩ ::
        lexemes "\x7d".toList := by
    decide
  refine ⟨(parse_comment hname (by decide) hbody (by decide)).1 (by decide),
    (parse_comment hhead (by decide) hbody (by decide)).2.1 (by decide), ?_⟩
  obtain ⟨pre, post, sheet, -, -, hsheet, hrules⟩ :=
    (parse_comment hvalue (by decide) hbody (by decide)).2.2 (by decide)
      ⟨[⟨[⟨[], .element "vid"⟩], [⟨"width", "1px"⟩]⟩]⟩ rfl
  exact ⟨_, _, sheet, hsheet, hrules⟩

theorem comment_refused :
    parse "vid \x7b width: 1px; \x7d" = .ok ⟨[⟨[⟨[], .element "vid"⟩], [⟨"width", "1px"⟩]⟩]⟩ ∧
      parse "vid /* c */ \x7b width: 1px; \x7d" =
        .error ⟨.selector (.invalid "vid /* c */ "), 1⟩ := by
  constructor
  · rfl
  · rfl

end StyleSheet
end Montage
