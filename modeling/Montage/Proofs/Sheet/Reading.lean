import Mathlib.Data.List.TakeWhile
import Montage.Sheet.Basic

/-!
# How a sheet is read

The readers of blocks and sheets, without the bounds on their steps and without the places of faults.

**Input.** The lexemes of a block or of a sheet.

**Algorithm.** A cut either passes through a front of the lexemes, or stops in it (`Passes`,
`passes_or_exists_stop`). A block is read entry by entry (`block?`), a sheet rule by rule (`sheet?`).

**Results.**
* `cutAt_append`: a cut that passes through a front goes on behind it.
* `block?_separator`, `block?_ident`: one step through a block.
* `sheet?_between`, `sheet?_charset`, `sheet?_rule`: one step through a sheet.
* `StyleSheet.toOption_parse`, `StyleSheet.parse_eq_ok`: a sheet is what `sheet?` reads.
-/

namespace Montage
namespace Sheet

/-! ### Cuts -/

/-- The open brackets after some lexemes. -/
def nesting (open? : List Bracket) (ls : List Lexeme) : List Bracket :=
  ls.foldl (fun o l => l.token.nest o) open?

theorem nesting_cons (open? : List Bracket) (l : Lexeme) (ls : List Lexeme) :
    nesting open? (l :: ls) = nesting (l.token.nest open?) ls :=
  rfl

theorem nesting_append (open? : List Bracket) (ls ls' : List Lexeme) :
    nesting open? (ls ++ ls') = nesting (nesting open? ls) ls' :=
  List.foldl_append

/-- A cut passes through lexemes: none of them is a stop outside the brackets opened here. -/
def Passes (stop : Token → Bool) : List Bracket → List Lexeme → Prop
  | _, [] => True
  | open?, l :: ls =>
      (open?.isEmpty && stop l.token) = false ∧ Passes stop (l.token.nest open?) ls

section

variable {stop : Token → Bool} {open? : List Bracket} {front : List Lexeme}

theorem passes_append {back : List Lexeme} :
    Passes stop open? (front ++ back) ↔
      Passes stop open? front ∧ Passes stop (nesting open? front) back := by
  induction front generalizing open? with
  | nil => exact (iff_of_eq (true_and _)).symm
  | cons l ls ih =>
      rw [List.cons_append, Passes, Passes, ih, nesting_cons, and_assoc]

theorem cutAt_append (h : Passes stop open? front) (back : List Lexeme) :
    cutAt stop open? (front ++ back) =
      (front ++ (cutAt stop (nesting open? front) back).1,
        (cutAt stop (nesting open? front) back).2) := by
  induction front generalizing open? with
  | nil => rfl
  | cons l ls ih =>
      obtain ⟨hl, hls⟩ := h
      rw [List.cons_append, cutAt, hl, if_neg Bool.false_ne_true, ih hls]
      rfl

theorem cutAt_stop {l : Lexeme} (h : stop l.token = true) (ls : List Lexeme) :
    cutAt stop [] (l :: ls) = ([], l :: ls) := by
  rw [cutAt, h]
  rfl

/-- A cut through a front up to a stop. -/
theorem cutAt_append_stop (h : Passes stop open? front) (hn : nesting open? front = [])
    {l : Lexeme} (hl : stop l.token = true) (back : List Lexeme) :
    cutAt stop open? (front ++ l :: back) = (front, l :: back) := by
  rw [cutAt_append h, hn, cutAt_stop hl, List.append_nil]

/-- A cut passes through lexemes, or it stops among them. -/
theorem passes_or_exists_stop (stop : Token → Bool) (open? : List Bracket) (ls : List Lexeme) :
    Passes stop open? ls ∨ ∃ front l back, ls = front ++ l :: back ∧ Passes stop open? front ∧
      nesting open? front = [] ∧ stop l.token = true := by
  induction ls generalizing open? with
  | nil => exact Or.inl trivial
  | cons l ls ih =>
      cases hl : open?.isEmpty && stop l.token with
      | true =>
          obtain ⟨hopen, hstop⟩ := Bool.and_eq_true_iff.1 hl
          exact Or.inr ⟨[], l, ls, rfl, trivial, List.isEmpty_iff.1 hopen, hstop⟩
      | false =>
          rcases ih (l.token.nest open?) with h | ⟨front, s, back, rfl, hp, hn, hs⟩
          · exact Or.inl ⟨hl, h⟩
          · exact Or.inr ⟨l :: front, s, back, rfl, ⟨hl, hp⟩, hn, hs⟩

end

theorem length_cutAt (stop : Token → Bool) (open? : List Bracket) (ls : List Lexeme) :
    (cutAt stop open? ls).2.length ≤ ls.length := by
  induction ls generalizing open? with
  | nil => simp [cutAt]
  | cons l ls ih =>
      rw [cutAt]
      split
      · exact Nat.le_refl _
      · exact Nat.le_succ_of_le (ih _)

/-! ### Blocks -/

theorem length_afterAtRule (ls : List Lexeme) : (afterAtRule ls).length ≤ ls.length - 1 := by
  cases ls with
  | nil => simp [afterAtRule]
  | cons l ls =>
      rw [afterAtRule]
      split
      · have h := length_cutAt Token.closesCurly [] ls
        rw [List.length_drop, List.length_cons]
        omega
      · simp

theorem Step.length_rest (l : Lexeme) (ls : List Lexeme) :
    (Step.ofLexemes (l :: ls)).rest.length ≤ ls.length := by
  have hsemicolon := length_cutAt Token.isSemicolon [] (l :: ls)
  have hrule := length_cutAt Token.endsAtRule [] (l :: ls)
  have hafter := length_afterAtRule (cutAt Token.endsAtRule [] (l :: ls)).2
  rw [List.length_cons] at hsemicolon hrule
  unfold Step.ofLexemes
  split
  · dsimp only
    omega
  · dsimp only
    rw [List.length_drop]
    omega

/-- The bound on the steps through a block does not matter. -/
theorem stepsWithin_eq {n m : Nat} {ls : List Lexeme} (hn : ls.length ≤ n) (hm : ls.length ≤ m) :
    stepsWithin n ls = stepsWithin m ls := by
  induction n generalizing m ls with
  | zero =>
      obtain rfl := List.length_eq_zero_iff.1 (Nat.le_zero.1 hn)
      cases m <;> rfl
  | succ n ih =>
      cases m with
      | zero =>
          obtain rfl := List.length_eq_zero_iff.1 (Nat.le_zero.1 hm)
          rfl
      | succ m =>
          have hdrop := List.length_dropWhile_le (fun l : Lexeme => l.token.isSeparator) ls
          rw [stepsWithin, stepsWithin]
          split
          · rfl
          · next l rest heq =>
              rw [heq, List.length_cons] at hdrop
              have hrest := Step.length_rest l rest
              dsimp only
              rw [ih (by omega) (by omega : _ ≤ m)]

theorem steps_separator {l : Lexeme} (h : l.token.isSeparator = true) (ls : List Lexeme) :
    steps (l :: ls) = steps ls := by
  have hdrop : (l :: ls).dropWhile (fun l => l.token.isSeparator) =
      ls.dropWhile fun l => l.token.isSeparator :=
    List.dropWhile_cons_of_pos h
  have hmore : steps ls = stepsWithin (ls.length + 1) ls :=
    stepsWithin_eq (Nat.le_refl _) (Nat.le_succ _)
  rw [hmore, steps, List.length_cons, stepsWithin, stepsWithin, hdrop]

theorem steps_entry {l : Lexeme} (h : l.token.isSeparator = false) (ls : List Lexeme) :
    steps (l :: ls) =
      Step.ofLexemes (l :: ls) :: steps (Step.ofLexemes (l :: ls)).rest := by
  have hdrop : (l :: ls).dropWhile (fun l => l.token.isSeparator) = l :: ls :=
    List.dropWhile_cons_of_neg (Bool.eq_false_iff.1 h)
  rw [steps, List.length_cons, stepsWithin, hdrop]
  dsimp only
  rw [steps, stepsWithin_eq (Step.length_rest l ls) (Nat.le_refl _)]

theorem firstMalformed?_cons (s : Step) (ss : List Step) : firstMalformed? (s :: ss) =
    match s.entry with
    | .declaration _ => firstMalformed? ss
    | .malformed text => some (text, s.unread) := by
  rw [firstMalformed?, List.findSome?_cons]
  cases s.entry <;> rfl

theorem declarations_cons (s : Step) (ss : List Step) : declarations (s :: ss) =
    match s.entry with
    | .declaration d => d :: declarations ss
    | .malformed _ => declarations ss := by
  rw [declarations, List.filterMap_cons]
  cases s.entry <;> rfl

/-- The declarations of a block without malformed entries. -/
def block? (ls : List Lexeme) : Option (List Declaration) :=
  match firstMalformed? (steps ls) with
  | none => some (declarations (steps ls))
  | some _ => none

theorem block?_separator {l : Lexeme} (h : l.token.isSeparator = true) (ls : List Lexeme) :
    block? (l :: ls) = block? ls := by
  rw [block?, block?, steps_separator h]

theorem block?_entry {l : Lexeme} (h : l.token.isSeparator = false) (ls : List Lexeme) :
    block? (l :: ls) =
      match (Step.ofLexemes (l :: ls)).entry with
      | .declaration d => (block? (Step.ofLexemes (l :: ls)).rest).map (d :: ·)
      | .malformed _ => none := by
  rw [block?, block?, steps_entry h, firstMalformed?_cons, declarations_cons]
  cases (Step.ofLexemes (l :: ls)).entry with
  | declaration d => cases firstMalformed? (steps (Step.ofLexemes (l :: ls)).rest) <;> rfl
  | malformed text => rfl

/-- An entry that begins with a name. -/
theorem block?_ident (name : String) (text : List Char) (ls : List Lexeme) :
    block? (⟨.ident name, text⟩ :: ls) =
      (Entry.value? (cutAt Token.isSemicolon [] ls).1).bind fun value =>
        (block? ((cutAt Token.isSemicolon [] ls).2.drop 1)).map fun ds =>
          ⟨String.ofList (Text.lower name.toList), value⟩ :: ds := by
  have hstep : Step.ofLexemes (⟨.ident name, text⟩ :: ls) =
      let cut := cutAt Token.isSemicolon [] (⟨.ident name, text⟩ :: ls)
      ⟨.ofLexemes (trimmedText (cut.1 ++ cut.2.take 1)) cut.1, cut.2.drop 1, cut.2.drop 1⟩ :=
    rfl
  have hcut : cutAt Token.isSemicolon [] (⟨.ident name, text⟩ :: ls) =
      (⟨.ident name, text⟩ :: (cutAt Token.isSemicolon [] ls).1, (cutAt Token.isSemicolon [] ls).2) :=
    rfl
  rw [block?_entry rfl, hstep, hcut]
  dsimp only
  rw [Entry.ofLexemes]
  cases Entry.value? (cutAt Token.isSemicolon [] ls).1 <;> rfl

/-- An entry that does not begin with a name is malformed. -/
theorem block?_malformed {l : Lexeme} (hs : l.token.isSeparator = false)
    (hn : ∀ name, l.token ≠ .ident name) (ls : List Lexeme) : block? (l :: ls) = none := by
  have hentry : ∃ text, (Step.ofLexemes (l :: ls)).entry = .malformed text := by
    unfold Step.ofLexemes
    split
    · exact ⟨_, rfl⟩
    · dsimp only
      rw [Entry.ofLexemes.eq_def]
      split
      · next front name text back heq =>
          rw [cutAt] at heq
          split at heq
          · exact absurd heq (List.cons_ne_nil _ _).symm
          · exact absurd (congrArg Lexeme.token (List.cons.inj heq).1) (hn name)
      · exact ⟨_, rfl⟩
  obtain ⟨text, hentry⟩ := hentry
  rw [block?_entry hs, hentry]

/-! ### Sheets -/

/-- The first rule and what follows it. -/
def rule? (ls : List Lexeme) : Option (Rule × List Lexeme) :=
  if declaresCustomName ls then none
  else
    match (cutAt Token.opensCurly [] ls).2 with
    | [] => none
    | _ :: rest =>
        match selectors (textOf (cutAt Token.opensCurly [] ls).1) with
        | .error _ => none
        | .ok selectors =>
            (block? (cutAt Token.closesCurly [] rest).1).map fun ds =>
              (⟨selectors, ds⟩, (cutAt Token.closesCurly [] rest).2.drop 1)

theorem token_of_opensCurly {l : Lexeme} (h : l.token.opensCurly = true) :
    l.token = .opening .curly :=
  beq_iff_eq.1 h

theorem head?_skipSpace (ls : List Lexeme) :
    (skipSpace ls).head? = ls.find? fun l => !l.token.isSpace :=
  (ls.find?_not_eq_head?_dropWhile _).symm

/-- Whether a custom name is declared is decided before the curly bracket. -/
theorem declaresCustomName_append {l : Lexeme} (hl : l.token.opensCurly = true)
    (ls back : List Lexeme) :
    declaresCustomName (ls ++ l :: back) = declaresCustomName (ls ++ [l]) := by
  obtain ⟨token, text⟩ := l
  obtain rfl := token_of_opensCurly hl
  cases ls with
  | nil => rfl
  | cons k ls =>
      have hfind : ∀ back : List Lexeme,
          List.find? (fun l => !l.token.isSpace) (ls ++ ⟨.opening .curly, text⟩ :: back) =
            (ls.find? fun l => !l.token.isSpace).or (some ⟨.opening .curly, text⟩) :=
        fun _ => List.find?_append
      obtain ⟨token, text'⟩ := k
      cases token with
      | ident name => simp only [List.cons_append, declaresCustomName, head?_skipSpace, hfind]
      | _ => rfl

/-- What declares a custom name has a colon. -/
theorem exists_colon_of_declaresCustomName {ls : List Lexeme} (h : declaresCustomName ls = true) :
    ∃ l ∈ ls, l.token = .colon := by
  rw [declaresCustomName.eq_def] at h
  split at h
  · obtain ⟨-, hcolon⟩ := Bool.and_eq_true_iff.1 h
    obtain ⟨l, hl, htoken⟩ := Option.map_eq_some_iff.1 (beq_iff_eq.1 hcolon)
    rw [head?_skipSpace] at hl
    exact ⟨l, List.mem_cons_of_mem _ (List.mem_of_find?_eq_some hl), htoken⟩
  · exact Bool.noConfusion h

/-- A rule whose head ends at a curly bracket. -/
theorem rule?_head {ls : List Lexeme} (h : Passes Token.opensCurly [] ls) (hn : nesting [] ls = [])
    {l : Lexeme} (hl : l.token.opensCurly = true) (back : List Lexeme) :
    rule? (ls ++ l :: back) =
      if declaresCustomName (ls ++ [l]) then none
      else
        (selectors (textOf ls)).toOption.bind fun ss =>
          (block? (cutAt Token.closesCurly [] back).1).map fun ds =>
            (⟨ss, ds⟩, (cutAt Token.closesCurly [] back).2.drop 1) := by
  rw [rule?, declaresCustomName_append hl, cutAt_append_stop h hn hl]
  cases selectors (textOf ls) <;> rfl

/-- A rule whose body is closed is what its head and its body say, whatever follows it. -/
theorem rule?_closed {head body : List Lexeme} {l r : Lexeme} (h : Passes Token.opensCurly [] head)
    (hn : nesting [] head = []) (hl : l.token.opensCurly = true)
    (hbody : Passes Token.closesCurly [] body) (hnest : nesting [] body = [])
    (hr : r.token.closesCurly = true) (back : List Lexeme) :
    rule? (head ++ l :: (body ++ r :: back)) =
      if declaresCustomName (head ++ [l]) then none
      else
        (selectors (textOf head)).toOption.bind fun ss =>
          (block? body).map fun ds => (⟨ss, ds⟩, back) := by
  rw [rule?_head h hn hl, cutAt_append_stop hbody hnest hr]
  rfl

theorem rule_eq (before ls : List Lexeme) :
    (rule before ls).toOption.map (fun r => (r.1, r.2.2)) = rule? ls := by
  unfold rule rule?
  split
  · rfl
  · generalize cutAt Token.opensCurly [] ls = cut
    obtain ⟨head, back⟩ := cut
    cases back with
    | nil => rfl
    | cons brace rest =>
        dsimp only
        cases selectors (textOf head) with
        | error e => rfl
        | ok selectors =>
            dsimp only
            rw [block?]
            cases firstMalformed? (steps (cutAt Token.closesCurly [] rest).1) <;> rfl

theorem length_of_rule?_eq_some {ls rest : List Lexeme} {r : Rule} (h : rule? ls = some (r, rest)) :
    rest.length < ls.length := by
  have hhead := length_cutAt Token.opensCurly [] ls
  unfold rule? at h
  split at h
  · exact absurd h (by simp)
  · split at h
    · exact absurd h (by simp)
    · next brace back heq =>
        have hbody := length_cutAt Token.closesCurly [] back
        rw [heq, List.length_cons] at hhead
        split at h
        · exact absurd h (by simp)
        · obtain ⟨ds, -, hds⟩ := Option.map_eq_some_iff.1 h
          obtain ⟨-, rfl⟩ := Prod.mk.inj hds
          rw [List.length_drop]
          omega

/-- A rule and the rules behind it, where the lexemes in front of these do not matter. -/
theorem toOption_rule_bind {next : List Lexeme → List Lexeme → Except SheetError (List Rule)}
    {next? : List Lexeme → Option (List Rule)} {ls : List Lexeme}
    (hnext : ∀ front back : List Lexeme, back.length < ls.length →
      (next front back).toOption = next? back) (before : List Lexeme) :
    ((rule before ls).bind fun r => (next r.2.1 r.2.2).map (r.1 :: ·)).toOption =
      (rule? ls).bind fun r => (next? r.2).map (r.1 :: ·) := by
  have h := rule_eq before ls
  generalize rule before ls = x at h ⊢
  cases x with
  | error e =>
      rw [← h]
      rfl
  | ok x =>
      obtain ⟨r, front, back⟩ := x
      have hback : (next front back).toOption = next? back :=
        hnext front back (length_of_rule?_eq_some h.symm)
      rw [← h]
      simp only [Except.toOption, Option.map_some, Option.bind_some, Except.bind]
      rw [← hback]
      cases next front back <;> rfl

/-- The bound on the number of rules and the lexemes in front do not matter. -/
theorem rulesWithin_eq {n m : Nat} {first : Bool} {before before' ls : List Lexeme}
    (hn : ls.length < n) (hm : ls.length < m) :
    (rulesWithin n first before ls).toOption = (rulesWithin m first before' ls).toOption := by
  induction n generalizing m first before before' ls with
  | zero => exact absurd hn (Nat.not_lt_zero _)
  | succ n ih =>
      cases m with
      | zero => exact absurd hm (Nat.not_lt_zero _)
      | succ m =>
          have hdrop := List.length_dropWhile_le (fun l : Lexeme => l.token.isBetweenRules) ls
          rw [rulesWithin, rulesWithin]
          dsimp only
          split
          · rfl
          · next name text rest heq =>
              rw [heq, List.length_cons] at hdrop
              split
              · have hcut := length_cutAt Token.endsAtRule [] (⟨.atKeyword name, text⟩ :: rest)
                have hafter := length_afterAtRule
                  (cutAt Token.endsAtRule [] (⟨.atKeyword name, text⟩ :: rest)).2
                rw [List.length_cons] at hcut
                exact ih (by omega) (by omega)
              · rfl
          · next l rest _ heq =>
              rw [heq] at hdrop
              have hmore : ∀ front back : List Lexeme, back.length < (l :: rest).length →
                  (rulesWithin n false front back).toOption =
                    (rulesWithin n false [] back).toOption :=
                fun _ _ hlen => ih (by omega) (by omega)
              have hmore' : ∀ front back : List Lexeme, back.length < (l :: rest).length →
                  (rulesWithin m false front back).toOption =
                    (rulesWithin n false [] back).toOption :=
                fun _ _ hlen => (ih (by omega) (by omega)).symm
              exact (toOption_rule_bind hmore _).trans (toOption_rule_bind hmore' _).symm

/-- The rules of a sheet. -/
def sheet? (first : Bool) (ls : List Lexeme) : Option (List Rule) :=
  (rulesWithin (ls.length + 1) first [] ls).toOption

theorem toOption_rulesWithin {n : Nat} {first : Bool} {before ls : List Lexeme}
    (h : ls.length < n) : (rulesWithin n first before ls).toOption = sheet? first ls :=
  rulesWithin_eq h (Nat.lt_succ_self _)

theorem sheet?_between {l : Lexeme} (h : l.token.isBetweenRules = true) (first : Bool)
    (ls : List Lexeme) : sheet? first (l :: ls) = sheet? first ls := by
  have hdrop : (l :: ls).dropWhile (fun l => l.token.isBetweenRules) =
      ls.dropWhile fun l => l.token.isBetweenRules :=
    List.dropWhile_cons_of_pos h
  have htake : (l :: ls).takeWhile (fun l => l.token.isBetweenRules) =
      l :: ls.takeWhile fun l => l.token.isBetweenRules :=
    List.takeWhile_cons_of_pos h
  have hmore : (rulesWithin (ls.length + 2) first [l] ls).toOption = sheet? first ls :=
    toOption_rulesWithin (Nat.lt_succ_of_lt (Nat.lt_succ_self ls.length))
  rw [← hmore, sheet?, List.length_cons, rulesWithin, rulesWithin, hdrop, htake]
  rfl

/-- The at-rule that names a character set is passed over. -/
theorem sheet?_charset {name : String} (h : Text.lower name.toList = "charset".toList)
    (text : List Char) (ls : List Lexeme) :
    sheet? true (⟨.atKeyword name, text⟩ :: ls) =
      sheet? false (afterAtRule (cutAt Token.endsAtRule [] (⟨.atKeyword name, text⟩ :: ls)).2) := by
  have hcut := length_cutAt Token.endsAtRule [] (⟨.atKeyword name, text⟩ :: ls)
  have hafter := length_afterAtRule (cutAt Token.endsAtRule [] (⟨.atKeyword name, text⟩ :: ls)).2
  have hdrop : (⟨.atKeyword name, text⟩ :: ls).dropWhile (fun l => l.token.isBetweenRules) =
      ⟨.atKeyword name, text⟩ :: ls :=
    List.dropWhile_cons_of_neg Bool.false_ne_true
  rw [List.length_cons] at hcut
  rw [sheet?, rulesWithin, hdrop]
  dsimp only
  rw [h, if_pos (by decide), toOption_rulesWithin (by rw [List.length_cons]; omega)]

/-- Every other at-rule is a fault. -/
theorem sheet?_atRule {first : Bool} {name : String}
    (h : (first && Text.lower name.toList == "charset".toList) = false) (text : List Char)
    (ls : List Lexeme) : sheet? first (⟨.atKeyword name, text⟩ :: ls) = none := by
  have hdrop : (⟨.atKeyword name, text⟩ :: ls).dropWhile (fun l => l.token.isBetweenRules) =
      ⟨.atKeyword name, text⟩ :: ls :=
    List.dropWhile_cons_of_neg Bool.false_ne_true
  rw [sheet?, rulesWithin, hdrop]
  dsimp only
  rw [h]
  rfl

/-- Lexemes with which a rule begins: the first of them is not skipped between rules, and it is no
at-keyword. -/
def StartsRule (ls : List Lexeme) : Prop :=
  ∃ l back, ls = l :: back ∧ l.token.isBetweenRules = false ∧ ∀ name, l.token ≠ .atKeyword name

theorem StartsRule.append {ls : List Lexeme} (h : StartsRule ls) (back : List Lexeme) :
    StartsRule (ls ++ back) := by
  obtain ⟨l, ls, rfl, hb, hn⟩ := h
  exact ⟨l, ls ++ back, rfl, hb, hn⟩

/-- A rule is read where it begins. -/
theorem rulesWithin_rule {l : Lexeme} (hb : l.token.isBetweenRules = false)
    (hn : ∀ name, l.token ≠ .atKeyword name) (n : Nat) (first : Bool) (before ls : List Lexeme) :
    rulesWithin (n + 1) first before (l :: ls) =
      (rule before (l :: ls)).bind fun r => (rulesWithin n false r.2.1 r.2.2).map (r.1 :: ·) := by
  have hdrop : (l :: ls).dropWhile (fun l => l.token.isBetweenRules) = l :: ls :=
    List.dropWhile_cons_of_neg (Bool.eq_false_iff.1 hb)
  have htake : (l :: ls).takeWhile (fun l => l.token.isBetweenRules) = [] :=
    List.takeWhile_cons_of_neg (Bool.eq_false_iff.1 hb)
  rw [rulesWithin, hdrop, htake, List.append_nil]
  dsimp only
  split
  · exact absurd ‹_› (List.cons_ne_nil _ _)
  · next heq => exact absurd (congrArg Lexeme.token (List.cons.inj heq).1) (hn _)
  · next k rest _ heq =>
      rw [← heq]
      rfl

theorem sheet?_rule {ls : List Lexeme} (h : StartsRule ls) (first : Bool) :
    sheet? first ls = (rule? ls).bind fun r => (sheet? false r.2).map (r.1 :: ·) := by
  obtain ⟨l, ls, rfl, hb, hn⟩ := h
  rw [sheet?, rulesWithin_rule hb hn]
  have hnext : ∀ front back : List Lexeme, back.length < (l :: ls).length →
      (rulesWithin (l :: ls).length false front back).toOption = sheet? false back :=
    fun _ _ hlen => toOption_rulesWithin hlen
  exact toOption_rule_bind hnext []

end Sheet

/-- A sheet is what is read of its lexemes. -/
theorem StyleSheet.toOption_parse (s : String) :
    (StyleSheet.parse s).toOption = (Sheet.sheet? true (Sheet.lexemes s.toList)).map StyleSheet.mk := by
  rw [StyleSheet.parse, Sheet.sheet?]
  cases Sheet.rulesWithin ((Sheet.lexemes s.toList).length + 1) true [] (Sheet.lexemes s.toList) <;>
    rfl

theorem StyleSheet.parse_eq_ok {s : String} {sheet : StyleSheet} :
    parse s = .ok sheet ↔ Sheet.sheet? true (Sheet.lexemes s.toList) = some sheet.rules := by
  have hok : ∀ x : Except SheetError StyleSheet, x = .ok sheet ↔ x.toOption = some sheet := by
    intro x
    cases x <;> simp [Except.toOption]
  rw [hok, toOption_parse, Option.map_eq_some_iff]
  exact ⟨fun ⟨_, hrs, hsheet⟩ => hsheet ▸ hrs, fun hrs => ⟨_, hrs, rfl⟩⟩

end Montage
