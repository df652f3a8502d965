import Montage.Proofs.Sheet.Place

/-!
# Blanks in values

A value is kept as it is written, with its blanks and its comments.

**Input.** A place in a value, and blanks and comments there that are replaced by others.

**Algorithm.** Blanks and comments are no stops, so every cut passes through them, and the entry, the
rule and the sheet around the value end where they ended (`cutAt_spaces`). A text with a character that
is no blank is not trimmed away (`Text.mem_trim`), so the entry has a value again.

**Results.**
* `sheet?_revalued`: a sheet that is read is read again, and it differs in that value only
  (`RevaluedRules`).
-/

namespace Montage

theorem Text.mem_dropWhile {p : Char → Bool} {c : Char} {cs : List Char} (hc : c ∈ cs)
    (hp : p c = false) : c ∈ cs.dropWhile p := by
  rw [← List.takeWhile_append_dropWhile (p := p) (l := cs)] at hc
  rcases List.mem_append.1 hc with hc | hc
  · exact absurd (List.mem_takeWhile_imp hc) (Bool.eq_false_iff.1 hp)
  · exact hc

/-- What is no blank is not trimmed away. -/
theorem Text.mem_trim {c : Char} {cs : List Char} (hc : c ∈ cs) (hb : isBlank c = false) :
    c ∈ trim cs :=
  List.mem_reverse.2 (mem_dropWhile (List.mem_reverse.2 (mem_dropWhile hc hb)) hb)

namespace Sheet

/-- Declarations that differ in the value of one of them. -/
inductive Revalued (value value' : String) : List Declaration → List Declaration → Prop
  | here (property : String) (ds : List Declaration) :
      Revalued value value' (⟨property, value⟩ :: ds) (⟨property, value'⟩ :: ds)
  | there (d : Declaration) {ds ds' : List Declaration} (h : Revalued value value' ds ds') :
      Revalued value value' (d :: ds) (d :: ds')

/-- Rules that differ in the value of one declaration. -/
inductive RevaluedRules (value value' : String) : List Rule → List Rule → Prop
  | here (ss : List Selector) {ds ds' : List Declaration} (h : Revalued value value' ds ds')
      (rs : List Rule) : RevaluedRules value value' (⟨ss, ds⟩ :: rs) (⟨ss, ds'⟩ :: rs)
  | there (r : Rule) {rs rs' : List Rule} (h : RevaluedRules value value' rs rs') :
      RevaluedRules value value' (r :: rs) (r :: rs')

theorem RevaluedRules.append {value value' : String} {rs rs' : List Rule}
    (h : RevaluedRules value value' rs rs') (front : List Rule) :
    RevaluedRules value value' (front ++ rs) (front ++ rs') := by
  induction front with
  | nil => exact h
  | cons r front ih => exact .there r ih

open Place

theorem isPrefix_cutAt (stop : Token → Bool) (open? : List Bracket) (ls : List Lexeme) :
    (cutAt stop open? ls).1 <+: ls := by
  induction ls generalizing open? with
  | nil => exact List.prefix_rfl
  | cons l ls ih =>
      rw [cutAt]
      split
      · exact List.nil_prefix
      · exact List.prefix_cons_inj l |>.2 (ih _)

/-- Blanks and comments are no stops, and they leave the open brackets as they are. -/
theorem passes_spaces {stop : Token → Bool} (hblank : stop .blank = false)
    (hcomment : stop .comment = false) (open? : List Bracket) {mid : List Lexeme}
    (h : ∀ l ∈ mid, l.token.isSpace = true) :
    Passes stop open? mid ∧ nesting open? mid = open? := by
  induction mid with
  | nil => exact ⟨trivial, rfl⟩
  | cons l mid ih =>
      obtain ⟨hl, hmid⟩ := List.forall_mem_cons.1 h
      rw [Passes, nesting_cons, nest_space hl, stop_of_isSpace hl hblank hcomment, Bool.and_false]
      exact ⟨⟨rfl, (ih hmid).1⟩, (ih hmid).2⟩

/-- A cut that comes to blanks and comments goes on behind them. -/
theorem cutAt_spaces {stop : Token → Bool} (hblank : stop .blank = false)
    (hcomment : stop .comment = false) {open? : List Bracket} {front mid : List Lexeme}
    (h : Passes stop open? front) (hmid : ∀ l ∈ mid, l.token.isSpace = true) (back : List Lexeme) :
    cutAt stop open? (front ++ (mid ++ back)) =
      (front ++ (mid ++ (cutAt stop (nesting open? front) back).1),
        (cutAt stop (nesting open? front) back).2) := by
  obtain ⟨hpasses, hnesting⟩ := passes_spaces hblank hcomment (nesting open? front) hmid
  rw [cutAt_append h, cutAt_append hpasses, hnesting]

theorem after_spaces (p : Place) {ls : List Lexeme} (h : ∀ l ∈ ls, l.token.isSpace = true) :
    p.after ls = p := by
  induction ls with
  | nil => rfl
  | cons l ls ih =>
      obtain ⟨hl, hls⟩ := List.forall_mem_cons.1 h
      rw [after_cons, step_of_isSpace p hl, ih hls]

/-! ### One value -/

theorem value?_colon {ls rest : List Lexeme} {text : List Char}
    (h : skipSpace ls = ⟨.colon, text⟩ :: rest) :
    Entry.value? ls = if (trimmedText rest).isEmpty then none else some (trimmedText rest) := by
  rw [Entry.value?, h]

/-- A text with a word in it is not empty when it is trimmed. -/
theorem isEmpty_trimmedText {ls : List Lexeme} (h : ∃ c ∈ textOf ls, Text.isBlank c = false) :
    (trimmedText ls).isEmpty = false := by
  obtain ⟨c, hc, hb⟩ := h
  rw [trimmedText, String.isEmpty_eq_false_iff]
  intro hempty
  have hmem := Text.mem_trim hc hb
  rw [← String.toList_ofList (l := Text.trim (textOf ls)), hempty] at hmem
  exact List.not_mem_nil hmem

/-- A block is read again with other lexemes between two parts, and one value with them. -/
def BlockAgain (mid mid' body back : List Lexeme) (ds : List Declaration) : Prop :=
  ∃ pre post ds', pre <:+ body ∧ post <+: back ∧ block? (body ++ (mid' ++ back)) = some ds' ∧
    Revalued (trimmedText (pre ++ (mid ++ post))) (trimmedText (pre ++ (mid' ++ post))) ds ds'

/-- A sheet is read again with other lexemes between two parts, and one value with them. -/
def SheetAgain (first : Bool) (mid mid' ls back : List Lexeme) (rs : List Rule) : Prop :=
  ∃ pre post rs', pre <:+ ls ∧ post <+: back ∧ sheet? first (ls ++ (mid' ++ back)) = some rs' ∧
    RevaluedRules (trimmedText (pre ++ (mid ++ post))) (trimmedText (pre ++ (mid' ++ post))) rs rs'

section

variable {mid mid' : List Lexeme} (hmid : ∀ l ∈ mid, l.token.isSpace = true)
  (hmid' : ∀ l ∈ mid', l.token.isSpace = true) (hword : ∃ c ∈ textOf mid', Text.isBlank c = false)

include hword in
/-- The value of an entry in which a value has begun. -/
theorem exists_of_value? {front post : List Lexeme} (hp : (name.after front).isValue = true)
    {x : String} (h : Entry.value? (front ++ (mid ++ post)) = some x) :
    ∃ pre, pre <:+ front ∧ x = trimmedText (pre ++ (mid ++ post)) ∧
      Entry.value? (front ++ (mid' ++ post)) = some (trimmedText (pre ++ (mid' ++ post))) := by
  -- the first of the lexemes that is no blank is in front of the place, and the entry is read, so it
  -- is the colon
  have hne : skipSpace front ≠ [] := by
    intro hnil
    rw [after_spaces name (List.dropWhile_eq_nil_iff.1 hnil)] at hp
    exact Bool.noConfusion hp
  obtain ⟨⟨token, text⟩, pre, hpre⟩ := List.exists_cons_of_ne_nil hne
  have hskip : ∀ ls, skipSpace (front ++ ls) = ⟨token, text⟩ :: (pre ++ ls) := by
    intro ls
    rw [skipSpace, List.dropWhile_append, if_neg (by rwa [List.isEmpty_iff]), ← List.cons_append,
      ← hpre]
    rfl
  have hsuffix : skipSpace front <:+ front := List.dropWhile_suffix _
  rw [hpre] at hsuffix
  by_cases hcolon : token = .colon
  · subst hcolon
    refine ⟨pre, (List.suffix_cons _ pre).trans hsuffix, ?_, ?_⟩
    · rw [value?_colon (hskip _)] at h
      split at h
      · exact absurd h (Option.some_ne_none x).symm
      · exact (Option.some.inj h).symm
    · obtain ⟨c, hc, hb⟩ := hword
      have hmem : c ∈ textOf (pre ++ (mid' ++ post)) := by
        rw [textOf, List.flatMap_append, List.flatMap_append]
        exact List.mem_append_right _ (List.mem_append_left _ hc)
      rw [value?_colon (hskip _), isEmpty_trimmedText ⟨c, hmem, hb⟩, if_neg Bool.false_ne_true]
  · rw [Entry.value?, hskip] at h
    split at h
    · next heq => exact absurd (congrArg Lexeme.token (List.cons.inj heq).1) hcolon
    · exact absurd h (Option.some_ne_none x).symm

include hmid hmid' hword in
/-- The place is in the entry of a name, or in one after it. -/
theorem block?_revalued_name {n : String} {text : List Char} {body back : List Lexeme}
    (h : Passes Token.closesCurly [] body) (hp : (name.after body).isValue = true)
    {ds : List Declaration}
    (hread : block? (⟨.ident n, text⟩ :: (body ++ (mid ++ back))) = some ds)
    (ih : ∀ rest : List Lexeme, rest.length < body.length → Passes Token.closesCurly [] rest →
      (entries.after rest).isValue = true → ∀ ds, block? (rest ++ (mid ++ back)) = some ds →
        BlockAgain mid mid' rest back ds) :
    BlockAgain mid mid' (⟨.ident n, text⟩ :: body) back ds := by
  have hcons := List.suffix_cons (⟨.ident n, text⟩ : Lexeme) body
  rw [block?_ident] at hread
  obtain ⟨x, hx, hread⟩ := Option.bind_eq_some_iff.1 hread
  obtain ⟨rest', hrest', rfl⟩ := Option.map_eq_some_iff.1 hread
  rcases passes_or_exists_stop Token.isSemicolon [] body with
    hs | ⟨front, s, rest, rfl, hs, hnest, hsemicolon⟩
  · rw [cutAt_spaces rfl rfl hs hmid] at hx hrest'
    obtain ⟨pre, hpre, rfl, hx'⟩ := exists_of_value? hword hp hx
    refine ⟨pre, _, _, hpre.trans hcons, isPrefix_cutAt _ _ _, ?_, .here _ rest'⟩
    rw [List.cons_append, block?_ident, cutAt_spaces rfl rfl hs hmid']
    dsimp only at hx' hrest' ⊢
    rw [hx', hrest']
    rfl
  · obtain ⟨hentries, hrest⟩ := after_name_semicolon hs hnest hsemicolon h
    have hcut := fun back => cutAt_append_stop hs hnest hsemicolon (rest ++ back)
    rw [hentries] at hp
    rw [List.append_assoc, List.cons_append, hcut] at hx hrest'
    obtain ⟨pre, post, ds', hpre, hpost, hds', hrevalued⟩ :=
      ih rest (by rw [List.length_append, List.length_cons]; omega) hrest hp rest' hrest'
    have hsuffix : rest <:+ front ++ s :: rest := ⟨front ++ [s], by simp⟩
    refine ⟨pre, post, _, hpre.trans (hsuffix.trans hcons), hpost, ?_, .there _ hrevalued⟩
    rw [List.cons_append, block?_ident, List.append_assoc, List.cons_append, hcut]
    dsimp only at hx ⊢
    rw [hx, Option.bind_some, List.drop_one, List.tail_cons, hds']
    rfl

include hmid hmid' hword in
theorem block?_revalued {body back : List Lexeme} (h : Passes Token.closesCurly [] body)
    (hp : (entries.after body).isValue = true) {ds : List Declaration}
    (hread : block? (body ++ (mid ++ back)) = some ds) : BlockAgain mid mid' body back ds := by
  generalize hn : body.length = n
  induction n using Nat.strongRecOn generalizing body ds with
  | ind n ih =>
      cases body with
      | nil => exact Bool.noConfusion hp
      | cons l body =>
          rw [List.length_cons] at hn
          rw [List.cons_append] at hread
          cases hs : l.token.isSeparator with
          | true =>
              obtain ⟨hentries, hbody⟩ := after_separator hs h
              rw [hentries] at hp
              rw [block?_separator hs] at hread
              obtain ⟨pre, post, ds', hpre, hpost, hds', hrevalued⟩ :=
                ih body.length (by omega) hbody hp hread rfl
              refine ⟨pre, post, ds', hpre.trans (List.suffix_cons l body), hpost, ?_, hrevalued⟩
              rw [List.cons_append, block?_separator hs, hds']
          | false =>
              by_cases hname : ∃ name, l.token = .ident name
              · obtain ⟨name, hname⟩ := hname
                obtain ⟨token, text⟩ := l
                obtain rfl : token = .ident name := hname
                exact block?_revalued_name hmid hmid' hword h.2 hp hread
                  fun rest hlt hrest hvalue ds hds =>
                    ih rest.length (by omega) hrest hvalue hds rfl
              · rw [block?_malformed hs fun name h => hname ⟨name, h⟩] at hread
                exact absurd hread (Option.some_ne_none ds).symm

/-! ### One sheet -/

include hmid hmid' hword in
theorem Opened.sheet?_revalued {ls back : List Lexeme} {p : Place} (h : Opened ls p)
    (hp : p.isValue = true) {first : Bool} {rs : List Rule}
    (hread : sheet? first (ls ++ (mid ++ back)) = some rs) : SheetAgain first mid mid' ls back rs := by
  cases h with
  | @body ls body l hs h hn hl hbody =>
      have hcut := cutAt_spaces rfl rfl hbody hmid back
      have hcut' := cutAt_spaces rfl rfl hbody hmid' back
      rw [sheet?_rule (hs.append _), List.append_assoc, List.cons_append, rule?_head h hn hl,
        hcut] at hread
      obtain ⟨⟨r, rest⟩, hrule, hread⟩ := Option.bind_eq_some_iff.1 hread
      obtain ⟨rs, hrs, rfl⟩ := Option.map_eq_some_iff.1 hread
      cases hname : declaresCustomName (ls ++ [l]) with
      | true =>
          rw [hname, if_pos rfl] at hrule
          exact absurd hrule (Option.some_ne_none _).symm
      | false =>
          rw [hname, if_neg Bool.false_ne_true] at hrule
          obtain ⟨ss, hss, hrule⟩ := Option.bind_eq_some_iff.1 hrule
          obtain ⟨ds, hds, hrule⟩ := Option.map_eq_some_iff.1 hrule
          obtain ⟨rfl, rfl⟩ := Prod.mk.inj hrule
          obtain ⟨pre, post, ds', hpre, hpost, hds', hrevalued⟩ :=
            block?_revalued hmid hmid' hword hbody hp hds
          refine ⟨pre, post, ⟨ss, ds'⟩ :: rs, hpre.trans ⟨ls ++ [l], by simp⟩,
            hpost.trans (isPrefix_cutAt _ _ _), ?_, .here ss hrevalued rs⟩
          rw [sheet?_rule (hs.append _), List.append_assoc, List.cons_append, rule?_head h hn hl,
            hcut', hname, if_neg Bool.false_ne_true, hss]
          dsimp only at hds' hrs ⊢
          rw [hds', Option.bind_some, Option.map_some, Option.bind_some, hrs]
          rfl
  | _ => exact Bool.noConfusion hp

include hmid hmid' hword in
/-- A sheet with blanks and comments in a value is read with others that hold a word, and that value
alone is another. -/
theorem sheet?_revalued {ls back : List Lexeme} (hp : (rules.after ls).isValue = true)
    {first : Bool} {rs : List Rule} (hread : sheet? first (ls ++ (mid ++ back)) = some rs) :
    SheetAgain first mid mid' ls back rs := by
  rcases readsTo first ls with hnone | ⟨rs', first', rest, hopen, hsuffix, hreads⟩
  · rw [hnone] at hread
    exact absurd hread (Option.some_ne_none rs).symm
  · rw [hreads] at hread
    obtain ⟨rs, hrs, rfl⟩ := Option.map_eq_some_iff.1 hread
    obtain ⟨pre, post, rs'', hpre, hpost, hrs'', hrevalued⟩ :=
      hopen.sheet?_revalued hmid hmid' hword hp hrs
    refine ⟨pre, post, rs' ++ rs'', hpre.trans hsuffix, hpost, ?_, hrevalued.append rs'⟩
    rw [hreads, hrs'']
    rfl

end

end Sheet
end Montage
