import Montage.Proofs.Sheet.Printed
import Montage.Proofs.Sheet.Values
import Montage.Proofs.Sheet.Whole

/-!
# Blocks of whole texts

A block of declarations means the same in a rule and in a style attribute, and what is wrong with an
entry stays in the entry.

**Input.** A text that leaves nothing open.

**Algorithm.** The lexemes of the text are cut into entries (`Entries`): an entry ends at the first
semicolon outside brackets, and an at-rule also with its block. A reader that comes to an entry comes
next to what is behind it, whether the entry is well-formed or not.

**Results.**
* `exists_entries`: the lexemes are cut into entries.
* `Entries.steps_append`: each entry is one step, in front of a semicolon or of nothing.
* `parse_block`: a rule has the declarations of its block, or its block has a malformed entry.
* `parseInline_append`: two texts around a semicolon are read one after the other.
-/

namespace Montage
namespace Sheet

/-! ### Entries -/

/-- What ends an entry that begins with a token: a semicolon, and for an at-rule also the curly
bracket of its block. -/
def Token.entryEnd : Token → Token → Bool
  | .atKeyword _ => Token.endsAtRule
  | _ => Token.isSemicolon

/-- An entry without its end: it begins with a token that is not skipped between entries, its brackets
have partners, and nothing ends it outside brackets. -/
inductive IsEntry : List Lexeme → Prop
  | intro {l : Lexeme} {ls : List Lexeme} (hspace : l.token.isSpace = false)
      (hsemicolon : l.token ≠ .semicolon) (hbalanced : isBalanced [] (l :: ls) = true)
      (hpasses : Passes l.token.entryEnd [] (l :: ls)) : IsEntry (l :: ls)

/-- The entries of a block. Blanks, comments and semicolons may stand between them. -/
inductive Entries : List Lexeme → List (List Lexeme) → Prop
  | nil : Entries [] []
  | separator {l : Lexeme} {ls : List Lexeme} {es : List (List Lexeme)}
      (hl : l.token.isSpace = true ∨ l.token = .semicolon) (h : Entries ls es) :
      Entries (l :: ls) es
  | last {e : List Lexeme} (he : IsEntry e) : Entries e [e]
  | entry {e ls : List Lexeme} {es : List (List Lexeme)} {text : List Char} (he : IsEntry e)
      (h : Entries ls es) :
      Entries (e ++ ⟨.semicolon, text⟩ :: ls) (e :: es)
  | atRule {e body ls : List Lexeme} {es : List (List Lexeme)} {name : String}
      {left right : List Char} (he : IsEntry e)
      (hname : e.head?.map Lexeme.token = some (.atKeyword name))
      (hbody : isBalanced [] body = true) (h : Entries ls es) :
      Entries (e ++ ⟨.opening .curly, left⟩ :: (body ++ ⟨.closing .curly, right⟩ :: ls)) (e :: es)

/-- A well-formed entry and its declaration: a name, a colon and a value that is not blank. -/
def IsDeclaration (e : List Lexeme) (d : Declaration) : Prop :=
  ∃ name text spaces colon value, e = ⟨.ident name, text⟩ :: (spaces ++ ⟨.colon, colon⟩ :: value) ∧
    (∀ l ∈ spaces, l.token.isSpace = true) ∧ trimmedText value ≠ "" ∧
    d = ⟨String.ofList (Text.lower name.toList), trimmedText value⟩

/-- The declarations of the well-formed ones among some entries, in order. -/
inductive Declared : List (List Lexeme) → List Declaration → Prop
  | nil : Declared [] []
  | wellFormed {e : List Lexeme} {d : Declaration} {es : List (List Lexeme)}
      {ds : List Declaration} (h : IsDeclaration e d) (hs : Declared es ds) :
      Declared (e :: es) (d :: ds)
  | malformed {e : List Lexeme} {es : List (List Lexeme)} {ds : List Declaration}
      (h : ∀ d, ¬IsDeclaration e d) (hs : Declared es ds) : Declared (e :: es) ds

variable {l : Lexeme} {ls e body front back tail : List Lexeme} {es : List (List Lexeme)}
  {open? : List Bracket} {ds : List Declaration} {d : Declaration}

/-! ### Brackets with partners -/

theorem isBalanced_cons : isBalanced open? (l :: ls) = true ↔
    (∀ b, l.token = .closing b → open?.head? = some b) ∧
      isBalanced (l.token.nest open?) ls = true := by
  rw [isBalanced]
  generalize l.token = t
  cases t with
  | closing b =>
      cases open? with
      | nil => simp
      | cons o rest =>
          by_cases ho : o = b
          · simp [Token.nest, ho]
          · simp [ho]
  | _ => simp [Token.nest]

theorem nesting_of_isBalanced (h : isBalanced open? ls = true) : nesting open? ls = [] := by
  induction ls generalizing open? with
  | nil => exact List.isEmpty_iff.1 h
  | cons l ls ih => exact ih (isBalanced_cons.1 h).2

/-- Both parts of a balanced text are balanced, if nothing is open between them. -/
theorem isBalanced_append (h : isBalanced open? (front ++ back) = true)
    (hn : nesting open? front = []) :
    isBalanced open? front = true ∧ isBalanced [] back = true := by
  induction front generalizing open? with
  | nil =>
      obtain rfl : open? = [] := hn
      exact ⟨rfl, h⟩
  | cons l front ih =>
      rw [List.cons_append, isBalanced_cons] at h
      obtain ⟨hfront, hback⟩ := ih h.2 hn
      exact ⟨isBalanced_cons.2 ⟨h.1, hfront⟩, hback⟩

theorem passes_closesCurly (h : isBalanced open? ls = true) : Passes Token.closesCurly open? ls := by
  induction ls generalizing open? with
  | nil => exact trivial
  | cons l ls ih =>
      obtain ⟨hclosing, hls⟩ := isBalanced_cons.1 h
      refine ⟨?_, ih hls⟩
      cases open? with
      | cons o rest => rfl
      | nil =>
          refine Bool.eq_false_iff.2 fun hcurly => ?_
          exact absurd (hclosing _ (beq_iff_eq.1 hcurly)) (by simp)

/-- The partner of an open bracket. -/
theorem exists_closing {b : Bracket} (inner : List Bracket)
    (h : isBalanced (inner ++ b :: open?) ls = true) :
    ∃ body text back, ls = body ++ ⟨.closing b, text⟩ :: back ∧ isBalanced inner body = true ∧
      isBalanced open? back = true := by
  induction ls generalizing inner with
  | nil => exact absurd (List.isEmpty_iff.1 h) (by simp)
  | cons l ls ih =>
      obtain ⟨hclosing, hls⟩ := isBalanced_cons.1 h
      have hdeeper : ∀ inner', l.token.nest (inner ++ b :: open?) = inner' ++ b :: open? →
          l.token.nest inner = inner' → (∀ b, l.token = .closing b → inner.head? = some b) →
          ∃ body text back, l :: ls = body ++ ⟨.closing b, text⟩ :: back ∧
            isBalanced inner body = true ∧ isBalanced open? back = true := by
        intro inner' hnest hinner hhead
        obtain ⟨body, text, back, rfl, hbody, hback⟩ := ih inner' (hnest ▸ hls)
        exact ⟨l :: body, text, back, rfl, isBalanced_cons.2 ⟨hhead, hinner ▸ hbody⟩, hback⟩
      obtain ⟨token, text⟩ := l
      cases token with
      | opening b' => exact hdeeper (b' :: inner) rfl rfl (by simp)
      | closing b' =>
          cases inner with
          | nil =>
              obtain rfl : b = b' := Option.some.inj (hclosing b' rfl)
              refine ⟨[], text, ls, rfl, rfl, ?_⟩
              rwa [List.nil_append, Token.nest, if_pos rfl] at hls
          | cons i inner =>
              obtain rfl : i = b' := Option.some.inj (hclosing b' rfl)
              refine hdeeper inner ?_ ?_ ?_
              · exact if_pos rfl
              · exact if_pos rfl
              · rintro _ ⟨⟩
                rfl
      | _ => exact hdeeper inner rfl rfl (by simp)

/-! ### Cutting into entries -/

theorem Token.entryEnd_cases {t s : Token} (h : t.entryEnd s = true) :
    s = .semicolon ∨ s = .opening .curly ∧ ∃ name, t = .atKeyword name := by
  cases t with
  | atKeyword name =>
      have hs : s.isSemicolon = true ∨ s.opensCurly = true := Bool.or_eq_true_iff.1 h
      exact hs.imp beq_iff_eq.1 fun hs => ⟨beq_iff_eq.1 hs, name, rfl⟩
  | _ => exact Or.inl (beq_iff_eq.1 h)

theorem nest_separator (hl : l.token.isSpace = true ∨ l.token = .semicolon)
    (open? : List Bracket) : l.token.nest open? = open? := by
  rcases hl with hl | hl
  · exact nest_space hl _
  · rw [hl]
    rfl

theorem isSeparator_of_separator (hl : l.token.isSpace = true ∨ l.token = .semicolon) :
    l.token.isSeparator = true := by
  rcases hl with hl | hl
  · rw [Token.isSeparator, hl]
    rfl
  · rw [hl]
    rfl

/-- The lexemes of a whole text are cut into entries. -/
theorem exists_entries (h : isBalanced [] ls = true) : ∃ es, Entries ls es := by
  -- On the length: what is left to cut starts behind an end, and for an at-rule behind its block.
  induction hn : ls.length using Nat.strongRecOn generalizing ls with
  | ind n ih =>
      cases ls with
      | nil => exact ⟨[], .nil⟩
      | cons l ls =>
          by_cases hsep : l.token.isSpace = true ∨ l.token = .semicolon
          · have hls := (isBalanced_cons.1 h).2
            rw [nest_separator hsep] at hls
            obtain ⟨es, hes⟩ := ih ls.length (by rw [← hn, List.length_cons]; omega) hls rfl
            exact ⟨es, .separator hsep hes⟩
          obtain ⟨hspace, hsemicolon⟩ := not_or.1 hsep
          have hspace := Bool.eq_false_iff.2 hspace
          rcases passes_or_exists_stop l.token.entryEnd [] (l :: ls) with
            hp | ⟨front, s, back, heq, hp, hnone, hs⟩
          · exact ⟨_, .last (.intro hspace hsemicolon h hp)⟩
          obtain ⟨front, rfl⟩ : ∃ front', front = l :: front' := by
            cases front with
            | nil =>
                obtain ⟨rfl, -⟩ := List.cons.inj heq
                rcases Token.entryEnd_cases hs with hl | ⟨hl, name, hat⟩
                · exact absurd hl hsemicolon
                · exact absurd (hl.symm.trans hat) (by simp)
            | cons k front => exact ⟨front, by rw [(List.cons.inj heq).1]⟩
          rw [heq] at h hn
          obtain ⟨hfront, hback⟩ := isBalanced_append h hnone
          have hentry : IsEntry (l :: front) := .intro hspace hsemicolon hfront hp
          rw [heq]
          rw [List.length_append, List.length_cons, List.length_cons] at hn
          have hmore := (isBalanced_cons.1 hback).2
          obtain ⟨token, text⟩ := s
          rcases Token.entryEnd_cases hs with rfl | ⟨rfl, name, hname⟩
          · obtain ⟨es, hes⟩ := ih back.length (by omega) hmore rfl
            exact ⟨_, .entry hentry hes⟩
          · obtain ⟨body, right, ls, rfl, hbody, hls⟩ := exists_closing [] hmore
            rw [List.length_append, List.length_cons] at hn
            obtain ⟨es, hes⟩ := ih ls.length (by omega) hls rfl
            exact ⟨_, .atRule hentry (congrArg some hname) hbody hes⟩

/-! ### Reading entries -/

/-- A step that reads an entry: the declaration of the entry if it is well-formed. -/
def Step.Reads (s : Step) (e : List Lexeme) : Prop :=
  ∀ d, s.entry = .declaration d ↔ IsDeclaration e d

theorem value?_eq_some {value : String} : Entry.value? ls = some value ↔
    ∃ spaces colon rest, ls = spaces ++ ⟨.colon, colon⟩ :: rest ∧
      (∀ l ∈ spaces, l.token.isSpace = true) ∧ trimmedText rest ≠ "" ∧ value = trimmedText rest := by
  constructor
  · intro h
    rw [Entry.value?] at h
    split at h
    · next colon rest heq =>
        dsimp only at h
        split at h
        · exact absurd h (by simp)
        · next hne =>
            refine ⟨ls.takeWhile fun l => l.token.isSpace, colon, rest, ?_,
              fun l hl => List.mem_takeWhile_imp (p := fun l : Lexeme => l.token.isSpace) hl, ?_, ?_⟩
            · rw [← heq]
              exact List.takeWhile_append_dropWhile.symm
            · rwa [ne_eq, ← String.isEmpty_iff]
            · exact (Option.some.inj h).symm
    · exact absurd h (by simp)
  · rintro ⟨spaces, colon, rest, rfl, hspaces, hne, rfl⟩
    have hskip : skipSpace (spaces ++ ⟨.colon, colon⟩ :: rest) = ⟨.colon, colon⟩ :: rest :=
      List.dropWhile_append_of_pos hspaces
    rw [value?_colon hskip, if_neg]
    rwa [String.isEmpty_iff]

/-- A well-formed entry is a declaration, whatever is shown of malformed ones. -/
theorem ofLexemes_eq_declaration (text : String) :
    Entry.ofLexemes text e = .declaration d ↔ IsDeclaration e d := by
  constructor
  · intro h
    rw [Entry.ofLexemes.eq_def] at h
    split at h
    · next name word rest =>
        split at h
        · next value hvalue =>
            obtain ⟨spaces, colon, rest, rfl, hspaces, hne, rfl⟩ := value?_eq_some.1 hvalue
            exact ⟨name, word, spaces, colon, rest, rfl, hspaces, hne, (Entry.declaration.inj h).symm⟩
        · exact Entry.noConfusion h
    · exact Entry.noConfusion h
  · rintro ⟨name, word, spaces, colon, rest, rfl, hspaces, hne, rfl⟩
    rw [Entry.ofLexemes, value?_eq_some.2 ⟨spaces, colon, rest, rfl, hspaces, hne, rfl⟩]

theorem not_isDeclaration_of_atKeyword {name : String}
    (hname : e.head?.map Lexeme.token = some (.atKeyword name)) : ¬IsDeclaration e d := by
  rintro ⟨name, word, spaces, colon, rest, rfl, -⟩
  exact absurd hname (by simp)

theorem isSeparator_of_isBalanced (hspace : l.token.isSpace = false)
    (hsemicolon : l.token ≠ .semicolon) (hb : isBalanced [] (l :: ls) = true) :
    l.token.isSeparator = false := by
  have hcurly : l.token.closesCurly = false := by
    obtain ⟨hl, -⟩ := passes_closesCurly hb
    exact hl
  rw [Token.isSeparator, hspace, hcurly, Token.isSemicolon, beq_false_of_ne hsemicolon]
  rfl

theorem cutAt_entry {stop : Token → Bool} (hp : Passes stop [] e) (hb : isBalanced [] e = true)
    (htail : ∀ l ∈ tail.head?, stop l.token = true) : cutAt stop [] (e ++ tail) = (e, tail) := by
  cases tail with
  | nil =>
      rw [cutAt_append hp]
      simp [cutAt]
  | cons l tail => exact cutAt_append_stop hp (nesting_of_isBalanced hb) (htail l rfl) tail

theorem Step.ofLexemes_atRule {name : String} (h : l.token = .atKeyword name) (ls : List Lexeme) :
    Step.ofLexemes (l :: ls) =
      let cut := cutAt Token.endsAtRule [] (l :: ls)
      ⟨.malformed (trimmedText cut.1), cut.2.drop 1, afterAtRule cut.2⟩ := by
  obtain ⟨token, text⟩ := l
  obtain rfl : token = .atKeyword name := h
  rfl

theorem Step.ofLexemes_entry (h : ∀ name, l.token ≠ .atKeyword name) (ls : List Lexeme) :
    Step.ofLexemes (l :: ls) =
      let cut := cutAt Token.isSemicolon [] (l :: ls)
      ⟨.ofLexemes (trimmedText (cut.1 ++ cut.2.take 1)) cut.1, cut.2.drop 1, cut.2.drop 1⟩ := by
  unfold Step.ofLexemes
  split
  · next heq => exact absurd (congrArg Lexeme.token (List.cons.inj heq).1) (h _)
  · rfl

/-- An entry is one step; what follows its semicolon is read next. -/
theorem IsEntry.steps_append (he : IsEntry e) (tail : List Lexeme)
    (htail : ∀ l ∈ tail.head?, l.token = .semicolon) :
    ∃ s, steps (e ++ tail) = s :: steps (tail.drop 1) ∧ s.Reads e := by
  obtain @⟨l, ls, hspace, hsemicolon, hb, hp⟩ := he
  have hstop : ∀ k ∈ tail.head?, l.token.entryEnd k.token = true := by
    intro k hk
    rw [htail k hk]
    cases l.token <;> rfl
  have hcut := cutAt_entry hp hb hstop
  rw [List.cons_append] at hcut ⊢
  rw [steps_entry (isSeparator_of_isBalanced hspace hsemicolon hb)]
  by_cases hat : ∃ name, l.token = .atKeyword name
  · obtain ⟨name, hname⟩ := hat
    have hafter : afterAtRule tail = tail.drop 1 := by
      cases tail with
      | nil => rfl
      | cons k tail =>
          rw [afterAtRule, htail k rfl]
          rfl
    rw [hname] at hcut
    rw [Step.ofLexemes_atRule hname]
    dsimp only [Token.entryEnd] at hcut ⊢
    rw [hcut, hafter]
    refine ⟨_, rfl, fun d => ⟨fun h => Entry.noConfusion h, fun h => ?_⟩⟩
    exact absurd h (not_isDeclaration_of_atKeyword (congrArg some hname))
  · have hat := not_exists.1 hat
    have hend : l.token.entryEnd = Token.isSemicolon := by
      cases htoken : l.token with
      | atKeyword name => exact absurd htoken (hat name)
      | _ => rfl
    rw [hend] at hcut
    rw [Step.ofLexemes_entry hat]
    dsimp only
    rw [hcut]
    exact ⟨_, rfl, fun d => ofLexemes_eq_declaration _⟩

/-- An at-rule is one step; what follows its block is read next. -/
theorem IsEntry.steps_atRule (he : IsEntry e) {name : String}
    (hname : e.head?.map Lexeme.token = some (.atKeyword name)) (hbody : isBalanced [] body = true)
    (left right : List Char) (ls : List Lexeme) :
    ∃ s, steps (e ++ ⟨.opening .curly, left⟩ :: (body ++ ⟨.closing .curly, right⟩ :: ls)) =
      s :: steps ls ∧ s.Reads e := by
  obtain @⟨l, front, hspace, hsemicolon, hb, hp⟩ := he
  have hl : l.token = .atKeyword name := Option.some.inj hname
  rw [hl] at hp
  have hcut := cutAt_append_stop hp (nesting_of_isBalanced hb) (l := ⟨.opening .curly, left⟩) rfl
    (body ++ ⟨.closing .curly, right⟩ :: ls)
  have hblock := cutAt_append_stop (passes_closesCurly hbody) (nesting_of_isBalanced hbody)
    (l := ⟨.closing .curly, right⟩) rfl ls
  have hafter : afterAtRule (⟨.opening .curly, left⟩ :: (body ++ ⟨.closing .curly, right⟩ :: ls)) =
      ls := by
    rw [afterAtRule, hblock]
    rfl
  rw [List.cons_append] at hcut ⊢
  rw [steps_entry (isSeparator_of_isBalanced hspace hsemicolon hb), Step.ofLexemes_atRule hl]
  dsimp only [Token.entryEnd] at hcut ⊢
  rw [hcut, hafter]
  refine ⟨_, rfl, fun d => ⟨fun h => Entry.noConfusion h, fun h => ?_⟩⟩
  exact absurd h (not_isDeclaration_of_atKeyword hname)

/-- Entries are read step by step, in front of a semicolon or of nothing. -/
theorem Entries.steps_append (h : Entries ls es) (tail : List Lexeme)
    (htail : ∀ l ∈ tail.head?, l.token = .semicolon) :
    ∃ ss, steps (ls ++ tail) = ss ++ steps tail ∧
      List.Forall₂ (fun s e => s.Reads e) ss es := by
  induction h with
  | nil => exact ⟨[], rfl, .nil⟩
  | separator hl h ih =>
      obtain ⟨ss, hss, hes⟩ := ih
      refine ⟨ss, ?_, hes⟩
      rw [List.cons_append, steps_separator (isSeparator_of_separator hl), hss]
  | last he =>
      obtain ⟨s, hs, hentry⟩ := he.steps_append tail htail
      refine ⟨[s], ?_, .cons hentry .nil⟩
      have hrest : steps (tail.drop 1) = steps tail := by
        cases tail with
        | nil => rfl
        | cons k tail =>
            exact (steps_separator (isSeparator_of_separator (.inr (htail k rfl))) tail).symm
      rw [hs, hrest]
      rfl
  | @entry e ls es text he h ih =>
      obtain ⟨ss, hss, hes⟩ := ih
      obtain ⟨s, hs, hentry⟩ := he.steps_append (⟨.semicolon, text⟩ :: (ls ++ tail)) (by simp)
      refine ⟨s :: ss, ?_, .cons hentry hes⟩
      rw [List.append_assoc, List.cons_append, hs, List.drop_succ_cons, List.drop_zero, hss]
      rfl
  | @atRule e body ls es name left right he hname hbody h ih =>
      obtain ⟨ss, hss, hes⟩ := ih
      obtain ⟨s, hs, hentry⟩ := he.steps_atRule hname hbody left right (ls ++ tail)
      refine ⟨s :: ss, ?_, .cons hentry hes⟩
      rw [List.append_assoc, List.cons_append, List.append_assoc, List.cons_append, hs, hss]
      rfl

/-- The steps through entries keep the declarations of the well-formed ones. -/
theorem declared_declarations {ss : List Step}
    (h : List.Forall₂ (fun s e => s.Reads e) ss es) :
    Declared es (declarations ss) := by
  induction h with
  | nil => exact .nil
  | @cons s e ss es hs hss ih =>
      rw [declarations_cons]
      cases hentry : s.entry with
      | declaration d => exact .wellFormed ((hs d).1 hentry) ih
      | malformed text =>
          refine .malformed (fun d hd => ?_) ih
          exact Entry.noConfusion (hentry.symm.trans ((hs d).2 hd))

/-- A step is malformed if and only if an entry is. -/
theorem firstMalformed?_eq_none {ss : List Step}
    (h : List.Forall₂ (fun s e => s.Reads e) ss es) :
    firstMalformed? ss = none ↔ ∀ e ∈ es, ∃ d, IsDeclaration e d := by
  induction h with
  | nil => simp [firstMalformed?]
  | @cons s e ss es hs hss ih =>
      rw [firstMalformed?_cons, List.forall_mem_cons]
      cases hentry : s.entry with
      | declaration d => exact ih.trans (iff_and_self.2 fun _ => ⟨d, (hs d).1 hentry⟩)
      | malformed text =>
          refine iff_of_false (by simp) fun hall => ?_
          obtain ⟨d, hd⟩ := hall.1
          exact Entry.noConfusion (hentry.symm.trans ((hs d).2 hd))

theorem IsDeclaration.unique {d' : Declaration} (h : IsDeclaration e d) (h' : IsDeclaration e d') :
    d = d' :=
  Entry.declaration.inj
    (((ofLexemes_eq_declaration "").2 h).symm.trans ((ofLexemes_eq_declaration "").2 h'))

theorem Declared.unique {ds' : List Declaration} (h : Declared es ds) (h' : Declared es ds') :
    ds = ds' := by
  induction h generalizing ds' with
  | nil =>
      cases h'
      rfl
  | wellFormed hd hs ih =>
      cases h' with
      | wellFormed hd' hs' => rw [hd.unique hd', ih hs']
      | malformed hd' hs' => exact absurd hd (hd' _)
  | malformed hd hs ih =>
      cases h' with
      | wellFormed hd' hs' => exact absurd hd' (hd _)
      | malformed hd' hs' => exact ih hs'

/-! ### Blocks in rules and in attributes -/

theorem lexemes_rule {B : String} (hB : IsWhole B.toList) :
    lexemes ("vid \x7b" ++ B ++ "\x7d").toList =
      ⟨.ident "vid", "vid".toList⟩ :: ⟨.blank, [' ']⟩ :: ⟨.opening .curly, ['\x7b']⟩ ::
        (lexemes B.toList ++ [⟨.closing .curly, ['\x7d']⟩]) := by
  have htext : ("vid \x7b" ++ B ++ "\x7d").toList =
      'v' :: (['i', 'd'] ++ ' ' :: '\x7b' :: (B.toList ++ ['\x7d'])) := by
    simp
  have hchars : (['v', 'i', 'd'].all fun c => Token.isNameChar c && c.toNat != 0) = true := by
    decide
  have hname : Token.scan 'v' (['i', 'd'] ++ ' ' :: '\x7b' :: (B.toList ++ ['\x7d'])) =
      (.ident "vid", 3) :=
    Token.scan_name (by decide) (by simpa using hchars) (by decide) _
  rw [htext, lexemes_cons, hname]
  change _ :: lexemes (' ' :: '\x7b' :: (B.toList ++ ['\x7d'])) = _
  rw [lexemes_space (by decide), lexemes_mark _ rfl,
    lexemes_append_mark (by decide) hB.closed hB.unescaped]
  rfl

/-- A rule whose block is a whole text ends with that block. -/
theorem rule_vid (hbody : isBalanced [] body = true) :
    ∃ back line, rule [] (⟨.ident "vid", "vid".toList⟩ :: ⟨.blank, [' ']⟩ ::
        ⟨.opening .curly, ['\x7b']⟩ :: (body ++ [⟨.closing .curly, ['\x7d']⟩])) =
      match firstMalformed? (steps body) with
      | some (text, _) => .error ⟨.malformed text, line⟩
      | none => .ok (⟨[⟨[], .element "vid"⟩], declarations (steps body)⟩, back, []) := by
  have hcut := cutAt_append_stop (passes_closesCurly hbody) (nesting_of_isBalanced hbody)
    (l := ⟨.closing .curly, ['\x7d']⟩) rfl []
  have hhead : ∀ rest : List Lexeme, cutAt Token.opensCurly []
      (⟨.ident "vid", "vid".toList⟩ :: ⟨.blank, [' ']⟩ :: ⟨.opening .curly, ['\x7b']⟩ :: rest) =
      ([⟨.ident "vid", "vid".toList⟩, ⟨.blank, [' ']⟩], ⟨.opening .curly, ['\x7b']⟩ :: rest) :=
    fun _ => rfl
  have hselectors : selectors (textOf [⟨.ident "vid", "vid".toList⟩, ⟨.blank, [' ']⟩]) =
      .ok [⟨[], .element "vid"⟩] := by
    decide
  have hcustom : ∀ rest : List Lexeme,
      ¬declaresCustomName (⟨.ident "vid", "vid".toList⟩ :: rest) = true := by
    intro rest
    rw [declaresCustomName]
    exact Bool.false_ne_true
  rw [rule, if_neg (hcustom _), hhead]
  dsimp only
  rw [hselectors]
  dsimp only
  rw [hcut]
  cases firstMalformed? (steps body) with
  | none => exact ⟨_, 0, rfl⟩
  | some m => exact ⟨[], _, rfl⟩

/-- A block is the same in a rule and in a style attribute, unless one of its entries is malformed:
then the rule is refused, and the attribute keeps the entries that are not. -/
theorem parse_block {B : String} (hB : IsWhole B.toList) :
    (∃ es, Entries (lexemes B.toList) es) ∧
    ∀ es, Entries (lexemes B.toList) es →
      Declared es (parseInline B) ∧
      ((∀ e ∈ es, ∃ d, IsDeclaration e d) ∧
          StyleSheet.parse ("vid \x7b" ++ B ++ "\x7d") =
            .ok ⟨[⟨[⟨[], .element "vid"⟩], parseInline B⟩]⟩ ∨
        (∃ e ∈ es, ∀ d, ¬IsDeclaration e d) ∧
          ∃ text line, StyleSheet.parse ("vid \x7b" ++ B ++ "\x7d") =
            .error ⟨.malformed text, line⟩) := by
  refine ⟨exists_entries hB.balanced, fun es hes => ?_⟩
  obtain ⟨ss, hss, hread⟩ := hes.steps_append [] (by simp)
  have hnone : steps [] = [] := rfl
  rw [List.append_nil, hnone, List.append_nil] at hss
  have hinline : parseInline B = declarations ss := by
    rw [parseInline, hss]
  obtain ⟨back, line, hrule⟩ := rule_vid hB.balanced
  have hparse : StyleSheet.parse ("vid \x7b" ++ B ++ "\x7d") =
      match firstMalformed? ss with
      | some (text, _) => .error ⟨.malformed text, line⟩
      | none => .ok ⟨[⟨[⟨[], .element "vid"⟩], declarations ss⟩]⟩ := by
    rw [StyleSheet.parse, lexemes_rule hB]
    rw [List.length_cons, rulesWithin_rule rfl (by simp), hrule, hss]
    cases firstMalformed? ss <;> rfl
  rw [hinline]
  refine ⟨declared_declarations hread, ?_⟩
  cases hfirst : firstMalformed? ss with
  | none =>
      rw [hfirst] at hparse
      exact Or.inl ⟨(firstMalformed?_eq_none hread).1 hfirst, hparse⟩
  | some m =>
      rw [hfirst] at hparse
      refine Or.inr ⟨?_, m.1, line, hparse⟩
      have hall : ¬∀ e ∈ es, ∃ d, IsDeclaration e d :=
        mt (firstMalformed?_eq_none hread).2 (by simp [hfirst])
      push Not at hall
      exact hall

/-- An at-rule with a block and a name without a colon stand between good entries; a string holds a
semicolon. -/
theorem parse_block_mixed :
    ∃ es, Entries (lexemes "a:1;@x y\x7bb:2;\x7dc 3;D : \"4;\"".toList) es ∧
      Declared es [⟨"a", "1"⟩, ⟨"d", "\"4;\""⟩] ∧ (∃ e ∈ es, ∀ d, ¬IsDeclaration e d) ∧
      ∃ text line, StyleSheet.parse "vid \x7ba:1;@x y\x7bb:2;\x7dc 3;D : \"4;\"\x7d" =
        .error ⟨.malformed text, line⟩ := by
  have hB : IsWhole "a:1;@x y\x7bb:2;\x7dc 3;D : \"4;\"".toList := by decide
  obtain ⟨⟨es, hes⟩, hall⟩ := parse_block hB
  obtain ⟨hdeclared, hparse⟩ := hall es hes
  refine ⟨es, hes, hdeclared, ?_⟩
  rcases hparse with ⟨-, hok⟩ | hbad
  · have hfault : StyleSheet.parse "vid \x7ba:1;@x y\x7bb:2;\x7dc 3;D : \"4;\"\x7d" =
        .error ⟨.malformed "@x y", 1⟩ := by
      rfl
    exact absurd (hfault.symm.trans hok) (by simp)
  · exact hbad

/-- Two texts around a semicolon are read one after the other, if the first one is whole. -/
theorem parseInline_append {a : String} (ha : IsWhole a.toList) (b : String) :
    parseInline (a ++ ";" ++ b) = parseInline a ++ parseInline b := by
  obtain ⟨es, hes⟩ := exists_entries ha.balanced
  have htext : (a ++ ";" ++ b).toList = a.toList ++ ';' :: b.toList := by simp
  have hlexemes : lexemes (a ++ ";" ++ b).toList =
      lexemes a.toList ++ ⟨.semicolon, [';']⟩ :: lexemes b.toList := by
    rw [htext, lexemes_append_mark rfl ha.closed ha.unescaped, lexemes_mark _ rfl]
  -- The steps in front of the semicolon may show other texts than those at the end, but they read
  -- the same entries.
  obtain ⟨ss, hss, hread⟩ := hes.steps_append (⟨.semicolon, [';']⟩ :: lexemes b.toList) (by simp)
  obtain ⟨ss', hss', hread'⟩ := hes.steps_append [] (by simp)
  have hnone : steps [] = [] := rfl
  rw [List.append_nil, hnone, List.append_nil] at hss'
  have hsame := (declared_declarations hread).unique (declared_declarations hread')
  rw [parseInline, parseInline, parseInline, hlexemes, hss, hss', ← hsame,
    steps_separator (by rfl)]
  exact List.filterMap_append

theorem parseInline_append_malformed :
    parseInline ("a (b;c)" ++ ";" ++ "d:\"e;f\";g") = parseInline "a (b;c)" ++ [⟨"d", "\"e;f\""⟩] :=
  parseInline_append (a := "a (b;c)") (by decide) "d:\"e;f\";g"

end Sheet
end Montage
