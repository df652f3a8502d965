import Montage.Proofs.Sheet.Reading
import Montage.Proofs.Sheet.Scan
import Montage.Proofs.Sheet.Words

/-!
# Sheets are read back

A sheet that is written out rule by rule is read as that sheet.

**Input.** Rules with selectors whose words have names, and with declarations of plain values.

**Algorithm.** The text is cut at the marks that are written: the curly brackets of a rule, and the
colon and the semicolon of a declaration. What stands between two marks is plain, so its lexemes hold
none of the marks, and their text is what was written.

**Results.**
* `Sheet.exists_block_of_plain`: the entries of a block are read back.
* `Sheet.sheet?_text`: so is a rule, up to where it ends.
* `StyleSheet.parse_text`: so is a sheet.
-/

namespace Montage

/-! ### Written forms -/

/-- The written form of a declaration, with its semicolon. -/
def Declaration.text (d : Declaration) : String :=
  d.property ++ ": " ++ d.value ++ ";"

/-- The written form of a rule. -/
def Rule.text (r : Rule) : String :=
  String.intercalate ", " (r.selectors.map Selector.text) ++ " \x7b " ++
    String.join (r.declarations.map fun d => d.text ++ " ") ++ "\x7d"

example : Rule.text ⟨[⟨[], .element "a"⟩, ⟨[.id "b"], .class "5"⟩], [⟨"p", "v"⟩, ⟨"q", "w x"⟩]⟩ =
    "a, #b .5 \x7b p: v; q: w x; \x7d" := by
  decide

/-- The written form of a sheet: its rules one after another. -/
def StyleSheet.text (s : StyleSheet) : String :=
  String.join (s.rules.map Rule.text)

/-- A property name: a lower case letter, then lower case letters and hyphens. -/
def Declaration.IsProperty : List Char → Prop
  | [] => False
  | c :: cs => ('a' ≤ c ∧ c ≤ 'z') ∧ ∀ e ∈ cs, ('a' ≤ e ∧ e ≤ 'z') ∨ e = '-'

instance : DecidablePred Declaration.IsProperty
  | [] => isFalse id
  | _ :: cs => @instDecidableAnd _ _ _ (List.decidableBAll _ cs)

/-- A declaration of a property with a plain value: a nonempty text without blanks around it and
without quotes, brackets, slashes, semicolons and backslashes. -/
structure Declaration.IsPlain (d : Declaration) : Prop where
  property : IsProperty d.property.toList
  value_ne : d.value ≠ ""
  trimmed : Text.trim d.value.toList = d.value.toList
  plain : Sheet.Token.IsPlain d.value.toList

instance (d : Declaration) : Decidable d.IsPlain :=
  decidable_of_iff (Declaration.IsProperty d.property.toList ∧ d.value ≠ "" ∧
      Text.trim d.value.toList = d.value.toList ∧ Sheet.Token.IsPlain d.value.toList)
    ⟨fun h => ⟨h.1, h.2.1, h.2.2.1, h.2.2.2⟩,
      fun h => ⟨h.property, h.value_ne, h.trimmed, h.plain⟩⟩

/-- A rule with selectors, all of whose parts are read back. -/
structure Rule.IsPlain (r : Rule) : Prop where
  selectors_ne : r.selectors ≠ []
  selectors : ∀ s ∈ r.selectors, s.IsNamed
  declarations : ∀ d ∈ r.declarations, d.IsPlain

instance (r : Rule) : Decidable r.IsPlain :=
  decidable_of_iff (r.selectors ≠ [] ∧ (∀ s ∈ r.selectors, s.IsNamed) ∧
      ∀ d ∈ r.declarations, d.IsPlain)
    ⟨fun h => ⟨h.1, h.2.1, h.2.2⟩, fun h => ⟨h.selectors_ne, h.selectors, h.declarations⟩⟩

/-- A sheet whose rules are all plain. -/
def StyleSheet.IsPlain (s : StyleSheet) : Prop :=
  ∀ r ∈ s.rules, r.IsPlain

instance (s : StyleSheet) : Decidable s.IsPlain :=
  inferInstanceAs (Decidable (∀ r ∈ s.rules, r.IsPlain))

namespace Sheet

open Token (IsPlain)

/-! ### Lexemes of what is written -/

/-- A blank before what is no blank is a lexeme. -/
theorem lexemes_space {c : Char} (hc : Text.isAsciiBlank c = false) (cs : List Char) :
    lexemes (' ' :: c :: cs) = ⟨.blank, [' ']⟩ :: lexemes (c :: cs) := by
  have hscan : Token.scan ' ' (c :: cs) = (.blank, 1) := by
    have hblank : (c :: cs).takeWhile Text.isAsciiBlank = [] :=
      List.takeWhile_cons_of_neg (Bool.eq_false_iff.1 hc)
    change (Token.blank, 1 + ((c :: cs).takeWhile Text.isAsciiBlank).length) = _
    rw [hblank]
    rfl
  rw [lexemes_cons, hscan]
  rfl

theorem lexemes_mark {c : Char} {t : Token} (cs : List Char) (h : Token.scan c cs = (t, 1)) :
    lexemes (c :: cs) = ⟨t, [c]⟩ :: lexemes cs := by
  rw [lexemes_cons, h]
  rfl

/-- Whether a token leaves the open brackets as they are and ends no entry. -/
def Token.isFlat : Token → Bool
  | .opening _ => false
  | .closing _ => false
  | .semicolon => false
  | _ => true

/-- The tokens of a plain text are flat. -/
theorem isFlat_of_signs {w : List Char} (hw : IsPlain w) {t : Token}
    (h : t.signs ≠ [] → ∃ e ∈ t.signs, e ∈ w) : t.isFlat = true := by
  have hsign : ∀ e, t.signs = [e] → Token.isSpecial e = false := by
    intro e he
    obtain ⟨e', he', hmem⟩ := h (he ▸ List.cons_ne_nil e [])
    rw [he] at he'
    exact List.mem_singleton.1 he' ▸ hw e' hmem
  cases t with
  | opening b =>
      have hleft : Token.isSpecial b.left = true := by cases b <;> rfl
      exact absurd hleft (Bool.eq_false_iff.1 (hsign _ rfl))
  | closing b =>
      have hright : Token.isSpecial b.right = true := by cases b <;> rfl
      exact absurd hright (Bool.eq_false_iff.1 (hsign _ rfl))
  | semicolon => exact absurd (hsign _ rfl) (by decide)
  | _ => rfl

/-- A cut at a token that is not flat passes through flat lexemes. -/
theorem passes_of_flat {s : Token} (hs : s.isFlat = false) (open? : List Bracket) {ls : List Lexeme}
    (h : ∀ l ∈ ls, l.token.isFlat = true) :
    Passes (fun t => t == s) open? ls ∧ nesting open? ls = open? := by
  induction ls with
  | nil => exact ⟨trivial, rfl⟩
  | cons l ls ih =>
      obtain ⟨hl, hls⟩ := List.forall_mem_cons.1 h
      have hnest : l.token.nest open? = open? := by
        generalize l.token = t at hl
        cases t with
        | opening b => exact Bool.noConfusion hl
        | closing b => exact Bool.noConfusion hl
        | _ => rfl
      have hpass : (l.token == s) = false := by
        rw [beq_eq_false_iff_ne]
        rintro rfl
        exact Bool.noConfusion (hl.symm.trans hs)
      rw [Passes, nesting_cons, hnest, hpass, Bool.and_false]
      exact ⟨⟨rfl, (ih hls).1⟩, (ih hls).2⟩

/-- A plain text before a mark: its lexemes are flat, they have its text, and those that mean something
to the grammar show in it. -/
theorem exists_lexemes_of_plain {w : List Char} (hw : IsPlain w) {d : Char}
    (hd : Token.isMark d = true) (rest : List Char) :
    ∃ ls, lexemes (w ++ d :: rest) = ls ++ lexemes (d :: rest) ∧ textOf ls = w ∧
      (∀ l ∈ ls, l.token.isFlat = true) ∧
      ∀ l ∈ ls, l.token.signs ≠ [] → ∃ e ∈ l.token.signs, e ∈ w := by
  obtain ⟨ls, hls, htext, hsigns⟩ := lexemes_plain_append hw hd rest
  exact ⟨ls, hls, htext, fun l hl => isFlat_of_signs hw (hsigns l hl), hsigns⟩

/-! ### Blocks -/

theorem isNameStart_of_letter {c : Char} (h : 'a' ≤ c ∧ c ≤ 'z') : Token.isNameStart c = true := by
  simp [Token.isNameStart, h.1, h.2]

theorem mem_property {cs : List Char} (h : Declaration.IsProperty cs) {c : Char} (hc : c ∈ cs) :
    ('a' ≤ c ∧ c ≤ 'z') ∨ c = '-' := by
  cases cs with
  | nil => exact h.elim
  | cons e es =>
      rcases List.mem_cons.1 hc with rfl | hc
      · exact Or.inl h.1
      · exact h.2 c hc

theorem exists_property_cons {cs : List Char} (h : Declaration.IsProperty cs) :
    ∃ c es, cs = c :: es ∧ Text.isAsciiBlank c = false := by
  cases cs with
  | nil => exact h.elim
  | cons c es =>
      refine ⟨c, es, rfl, Bool.eq_false_iff.2 fun hblank => ?_⟩
      have hmem : c ∈ [' ', '\t', '\n', '\x0c', '\r'] := by
        simpa [Text.isAsciiBlank, or_assoc] using hblank
      have hbelow : [' ', '\t', '\n', '\x0c', '\r'].any (fun e => 'a' ≤ e) = false := by decide
      exact List.any_eq_false.1 hbelow c hmem (decide_eq_true h.1.1)

/-- A property is one lexeme, and so is the colon after it. -/
theorem lexemes_property {cs : List Char} (h : Declaration.IsProperty cs) (rest : List Char) :
    lexemes (cs ++ ':' :: rest) =
      ⟨.ident (String.ofList cs), cs⟩ :: ⟨.colon, [':']⟩ :: lexemes rest := by
  have hname : ∀ e ∈ cs, Token.isNameChar e = true ∧ e.toNat ≠ 0 := by
    intro e he
    rcases mem_property h he with ⟨ha, hz⟩ | rfl
    · refine ⟨by simp [Token.isNameChar, isNameStart_of_letter ⟨ha, hz⟩], ?_⟩
      have hnat : 97 ≤ e.toNat := ha
      omega
    · exact ⟨by decide, by decide⟩
  cases cs with
  | nil => exact h.elim
  | cons c cs =>
      have hscan := Token.scan_name (isNameStart_of_letter h.1) hname (d := ':') (by decide) rest
      rw [List.cons_append, lexemes_cons, hscan]
      dsimp only
      rw [Nat.add_sub_cancel, List.take_left, List.drop_left, lexemes_mark rest rfl]

theorem lower_property {cs : List Char} (h : Declaration.IsProperty cs) : Text.lower cs = cs := by
  refine (List.map_congr_left fun c hc => ?_).trans (List.map_id cs)
  rcases mem_property h hc with ⟨ha, hz⟩ | rfl
  · have hupper : ¬(65 ≤ c.val ∧ c.val ≤ 90) := by
      have hnat : 97 ≤ c.val.toNat := ha
      rw [UInt32.le_iff_toNat_le, UInt32.le_iff_toNat_le]
      change ¬(65 ≤ c.val.toNat ∧ c.val.toNat ≤ 90)
      omega
    exact dif_neg hupper
  · rfl

/-- The value of a declaration is read back. -/
theorem value?_text {d : Declaration} (h : d.IsPlain) {ls : List Lexeme}
    (htext : textOf ls = ' ' :: d.value.toList) :
    Entry.value? (⟨.colon, [':']⟩ :: ls) = some d.value := by
  have htrim : trimmedText ls = d.value := by
    rw [trimmedText, htext]
    change String.ofList (Text.trim d.value.toList) = d.value
    rw [h.trimmed, String.ofList_toList]
  have hskip : skipSpace (⟨.colon, [':']⟩ :: ls) = ⟨.colon, [':']⟩ :: ls := rfl
  rw [Entry.value?, hskip]
  dsimp only
  rw [htrim, if_neg]
  simpa using h.value_ne

/-- The entries of a block with the blanks between them. -/
def entriesOf (ds : List Declaration) : List Char :=
  ds.flatMap fun d => d.text.toList ++ [' ']

/-- The lexemes of a block in its written form, and what is read of them. -/
structure IsBlockOf (ds : List Declaration) (body : List Lexeme) : Prop where
  passes : Passes Token.closesCurly [] body
  nesting : nesting [] body = []
  block : block? body = some ds

/-- The entries of a block are read back. -/
theorem exists_block_of_plain {ds : List Declaration} (h : ∀ d ∈ ds, d.IsPlain) (rest : List Char) :
    ∃ body, lexemes (' ' :: entriesOf ds ++ '\x7d' :: rest) =
        body ++ ⟨.closing .curly, ['\x7d']⟩ :: lexemes rest ∧ IsBlockOf ds body := by
  induction ds with
  | nil =>
      refine ⟨[⟨.blank, [' ']⟩], ?_, ⟨rfl, trivial⟩, rfl, rfl⟩
      exact (lexemes_space (by decide) rest).trans (congrArg _ (lexemes_mark rest rfl))
  | cons d ds ih =>
      obtain ⟨hd, hds⟩ := List.forall_mem_cons.1 h
      obtain ⟨body, hbody, hpasses, hnesting, hblock⟩ := ih hds
      have hvalue : IsPlain (' ' :: d.value.toList) :=
        List.forall_mem_cons.2 ⟨by decide, hd.plain⟩
      obtain ⟨ls, hls, htext, hflat, -⟩ := exists_lexemes_of_plain hvalue (d := ';') (by decide)
        (' ' :: entriesOf ds ++ '\x7d' :: rest)
      have hchars : ' ' :: entriesOf (d :: ds) ++ '\x7d' :: rest = ' ' :: (d.property.toList ++
          ':' :: (' ' :: d.value.toList ++ ';' :: (' ' :: entriesOf ds ++ '\x7d' :: rest))) := by
        simp [entriesOf, Declaration.text]
      obtain ⟨c, cs, hproperty, hc⟩ := exists_property_cons hd.property
      have hsemicolon := passes_of_flat (s := .semicolon) rfl [] hflat
      have hcurly := passes_of_flat (s := .closing .curly) rfl [] hflat
      refine ⟨⟨.blank, [' ']⟩ :: ⟨.ident d.property, d.property.toList⟩ :: ⟨.colon, [':']⟩ ::
        (ls ++ ⟨.semicolon, [';']⟩ :: body), ?_, ⟨rfl, rfl, rfl, ?_⟩, ?_, ?_⟩
      · rw [hchars, hproperty, List.cons_append, lexemes_space hc, ← List.cons_append, ← hproperty,
          lexemes_property hd.property, String.ofList_toList, hls, lexemes_mark _ rfl, hbody]
        simp
      · have htail : Passes Token.closesCurly (nesting [] ls) (⟨.semicolon, [';']⟩ :: body) := by
          rw [hcurly.2]
          exact ⟨rfl, hpasses⟩
        exact passes_append.2 ⟨hcurly.1, htail⟩
      · change nesting [] (ls ++ ⟨.semicolon, [';']⟩ :: body) = []
        rw [nesting_append, hcurly.2]
        exact hnesting
      · have hentry : Passes Token.isSemicolon [] (⟨.colon, [':']⟩ :: ls) := ⟨rfl, hsemicolon.1⟩
        have hcut : cutAt Token.isSemicolon []
              (⟨.colon, [':']⟩ :: (ls ++ ⟨.semicolon, [';']⟩ :: body)) =
            (⟨.colon, [':']⟩ :: ls, ⟨.semicolon, [';']⟩ :: body) :=
          cutAt_append_stop hentry hsemicolon.2 rfl body
        rw [block?_separator rfl, block?_ident, hcut]
        dsimp only
        rw [value?_text hd htext, List.drop_one, List.tail_cons, hblock, lower_property hd.property,
          String.ofList_toList]
        rfl

/-! ### Heads and rules -/

/-- The characters in the head of a rule. -/
def headOf (r : Rule) : List Char :=
  [',', ' '].intercalate (r.selectors.map fun s => s.text.toList) ++ [' ']

theorem toList_text (r : Rule) :
    r.text.toList = headOf r ++ '\x7b' :: (' ' :: entriesOf r.declarations ++ ['\x7d']) := by
  have hentries : (String.join (r.declarations.map fun d => d.text ++ " ")).toList =
      entriesOf r.declarations := by
    rw [String.toList_join, entriesOf, List.flatMap_map]
    simp
  rw [Rule.text, String.toList_append, String.toList_append, String.toList_append, hentries,
    String.toList_intercalate, List.map_map, headOf]
  simp [Function.comp_def]

/-- The characters of a written head. -/
def isHeadChar (c : Char) : Bool :=
  Segment.isNameChar c || ['.', '#', ' ', ','].contains c

theorem isHeadChar_of_mem {r : Rule} (h : r.IsPlain) {c : Char} (hc : c ∈ headOf r) :
    isHeadChar c = true := by
  rcases List.mem_append.1 hc with hc | hc
  · rcases Text.mem_intercalate hc with hc | ⟨v, hv, hc⟩
    · exact List.all_eq_true.1 (by decide) c hc
    · obtain ⟨s, hs, rfl⟩ := List.mem_map.1 hv
      rcases Selector.mem_text (h.selectors s hs) hc with hc | rfl | rfl | rfl
      · exact Bool.or_eq_true_iff.2 (Or.inl hc)
      · rfl
      · rfl
      · rfl
  · exact List.mem_singleton.1 hc ▸ rfl

theorem isPlain_headOf {r : Rule} (h : r.IsPlain) : IsPlain (headOf r) := by
  intro c hc
  rw [Token.isSpecial, List.contains_eq_mem, decide_eq_false_iff_not]
  intro hspecial
  exact List.any_eq_false.1 (by decide) c hspecial (isHeadChar_of_mem h hc)

theorem exists_headOf_cons {r : Rule} (h : r.IsPlain) :
    ∃ c cs, headOf r = c :: cs ∧ Text.isAsciiBlank c = false := by
  obtain ⟨s, ss, hss⟩ := List.exists_cons_of_ne_nil h.selectors_ne
  obtain ⟨c, cs, hcs, hc⟩ := Selector.exists_text_cons (h.selectors s (hss ▸ List.mem_cons_self))
  obtain ⟨back, hback⟩ :=
    Text.exists_intercalate_cons [',', ' '] s.text.toList (ss.map fun s => s.text.toList)
  refine ⟨c, cs ++ back ++ [' '], ?_, Bool.eq_false_iff.2 fun hblank => ?_⟩
  · rw [headOf, hss, List.map_cons, hback, hcs, List.cons_append, List.cons_append]
  · exact Bool.noConfusion (hc.symm.trans (Text.isBlank_of_isAsciiBlank hblank))

/-- The lexemes of a head, and what is read of them. -/
structure IsHeadOf (ss : List Selector) (head : List Lexeme) : Prop where
  flat : ∀ l ∈ head, l.token.isFlat = true
  colon : ∀ l ∈ head, l.token ≠ .colon
  starts : StartsRule head
  read : selectors (textOf head) = .ok ss

theorem exists_head_of_plain {r : Rule} (h : r.IsPlain) (rest : List Char) :
    ∃ head, lexemes (headOf r ++ '\x7b' :: rest) =
        head ++ ⟨.opening .curly, ['\x7b']⟩ :: lexemes rest ∧
      IsHeadOf r.selectors head := by
  obtain ⟨head, hhead, htext, hflat, hsigns⟩ :=
    exists_lexemes_of_plain (isPlain_headOf h) (d := '\x7b') rfl rest
  have hsign : ∀ l ∈ head, ∀ es, l.token.signs = es → es ≠ [] →
      es.any isHeadChar = true := by
    rintro l hl es rfl hne
    obtain ⟨e, he, hmem⟩ := hsigns l hl hne
    exact List.any_eq_true.2 ⟨e, he, isHeadChar_of_mem h hmem⟩
  have hfirst : ∃ l back, head = l :: back ∧ l.token ≠ .blank := by
    obtain ⟨c, cs, hcons, hc⟩ := exists_headOf_cons h
    cases head with
    | nil => exact absurd (htext.trans hcons) (List.cons_ne_nil c cs).symm
    | cons l head =>
        rw [hcons, List.cons_append, lexemes_cons] at hhead
        refine ⟨l, head, rfl, fun hblank => ?_⟩
        rw [← (List.cons.inj hhead).1] at hblank
        exact Bool.noConfusion ((Token.isAsciiBlank_of_scan hblank).symm.trans hc)
  refine ⟨head, hhead.trans (congrArg _ (lexemes_mark rest rfl)), hflat, ?_, ?_, ?_⟩
  · intro l hl hcolon
    exact absurd (hsign l hl [':'] (by rw [hcolon]; rfl) (by simp)) (by decide)
  · obtain ⟨l, back, rfl, hblank⟩ := hfirst
    have hnone := hsign l List.mem_cons_self
    refine ⟨l, back, rfl, ?_, ?_⟩
    · have hcomment : l.token ≠ .comment := fun ht =>
        absurd (hnone ['/'] (by rw [ht]; rfl) (by simp)) (by decide)
      have hhidden : l.token ≠ .hidden := fun ht =>
        absurd (hnone ['<', '>'] (by rw [ht]; rfl) (by simp)) (by decide)
      simp [Token.isBetweenRules, Token.isSpace, hblank, hcomment, hhidden]
    · intro name ht
      exact absurd (hnone ['@'] (by rw [ht]; rfl) (by simp)) (by decide)
  · have hnone : ∀ c ∈ ([] : List Char), Text.isBlank c = true := by simp
    have hspace : ∀ c ∈ [' '], Text.isBlank c = true := List.forall_mem_singleton.2 (by decide)
    rw [htext]
    exact selectors_intercalate h.selectors_ne h.selectors hnone hspace

/-- A rule is read back, and the text after it is left. -/
theorem sheet?_text {r : Rule} (h : r.IsPlain) (first : Bool) (rest : List Char) :
    sheet? first (lexemes (r.text.toList ++ rest)) =
      (sheet? false (lexemes rest)).map (r :: ·) := by
  obtain ⟨body, hbody, hblock⟩ := exists_block_of_plain h.declarations rest
  obtain ⟨head, hhead, hread⟩ :=
    exists_head_of_plain h (' ' :: entriesOf r.declarations ++ '\x7d' :: rest)
  have hcurly := passes_of_flat (s := .opening .curly) rfl [] hread.flat
  have hlexemes : lexemes (r.text.toList ++ rest) = head ++ ⟨.opening .curly, ['\x7b']⟩ ::
      (body ++ ⟨.closing .curly, ['\x7d']⟩ :: lexemes rest) := by
    rw [toList_text, ← hbody, ← hhead]
    simp
  have hname : declaresCustomName (head ++ [⟨.opening .curly, ['\x7b']⟩]) = false := by
    refine Bool.eq_false_iff.2 fun hname => ?_
    obtain ⟨l, hl, hcolon⟩ := exists_colon_of_declaresCustomName hname
    rcases List.mem_append.1 hl with hl | hl
    · exact hread.colon l hl hcolon
    · rw [List.mem_singleton.1 hl] at hcolon
      exact Token.noConfusion hcolon
  have hrule : rule? (lexemes (r.text.toList ++ rest)) = some (r, lexemes rest) := by
    rw [hlexemes, rule?_closed hcurly.1 hcurly.2 rfl hblock.passes hblock.nesting rfl, hname,
      if_neg Bool.false_ne_true, hread.read, hblock.block]
    rfl
  have hstarts : StartsRule (lexemes (r.text.toList ++ rest)) := hlexemes ▸ hread.starts.append _
  rw [sheet?_rule hstarts, hrule]
  rfl

end Sheet

namespace StyleSheet

theorem sheet?_text {rs : List Rule} (h : ∀ r ∈ rs, r.IsPlain) (first : Bool) :
    Sheet.sheet? first (Sheet.lexemes (String.join (rs.map Rule.text)).toList) = some rs := by
  rw [String.toList_join]
  induction rs generalizing first with
  | nil => rfl
  | cons r rs ih =>
      obtain ⟨hr, hrs⟩ := List.forall_mem_cons.1 h
      rw [List.map_cons, List.flatMap_cons, Sheet.sheet?_text hr, ih hrs]
      rfl

/-- A sheet of plain rules is read back. -/
theorem parse_text {s : StyleSheet} (h : s.IsPlain) : parse s.text = .ok s := by
  rw [parse_eq_ok, text]
  exact sheet?_text h true

theorem parse_text_lookalikes :
    IsPlain ⟨[⟨[⟨[.element "cont"], .class "5"⟩, ⟨[], .element "--x"⟩],
      [⟨"width", "+.5e-3px, 50% #fff"⟩, ⟨"x-y", "a:b --_"⟩]⟩, ⟨[⟨[.id "-"], .id "0"⟩], []⟩]⟩ ∧
    parse (text ⟨[⟨[⟨[.element "cont"], .class "5"⟩, ⟨[], .element "--x"⟩],
      [⟨"width", "+.5e-3px, 50% #fff"⟩, ⟨"x-y", "a:b --_"⟩]⟩, ⟨[⟨[.id "-"], .id "0"⟩], []⟩]⟩) =
      .ok ⟨[⟨[⟨[.element "cont"], .class "5"⟩, ⟨[], .element "--x"⟩],
        [⟨"width", "+.5e-3px, 50% #fff"⟩, ⟨"x-y", "a:b --_"⟩]⟩, ⟨[⟨[.id "-"], .id "0"⟩], []⟩]⟩ :=
  ⟨by decide, parse_text (by decide)⟩

end StyleSheet
end Montage
