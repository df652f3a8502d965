import Montage.Proofs.Sheet.Reading
import Montage.Proofs.Sheet.Words

/-!
# Places in a sheet

Where in a sheet a text ends, and what has been read up to there.

**Input.** The lexemes in front of a place.

**Algorithm.** A place is found token by token, without looking ahead (`Place.step`). The rules in front
of it are read, and what has been opened since then decides how the sheet goes on (`Opened`).

**Results.**
* `readsTo`: up to a place a sheet is faulty, or it holds whole rules and what is open.
* `sheet?_insert`: outside heads and values a blank or a comment says nothing.
* `sheet?_faulty`: in a head a comment makes the sheet faulty.
-/

namespace Montage
namespace Sheet

/-- A place in a sheet. In at-rules, heads and values brackets may be open. An entry without a colon
after its name counts as a value. -/
inductive Place where
  | rules
  | atHead (open? : List Bracket)
  | atBlock (open? : List Bracket)
  | head (open? : List Bracket)
  | entries
  | name
  | value (open? : List Bracket)
  deriving Repr, DecidableEq

/-- Whether a token ends an entry: a semicolon, or the curly bracket that closes the block. -/
def Token.endsEntry (t : Token) : Bool :=
  t.isSemicolon || t.closesCurly

namespace Place

/-- The place after the token that ends an entry. -/
def afterEntry (t : Token) : Place :=
  if t.isSemicolon then entries else rules

/-- The place after the token that ends the head of an at-rule. -/
def afterAtHead (t : Token) : Place :=
  if t.isSemicolon then rules else atBlock []

/-- The place after a token. -/
def step : Place → Token → Place
  | rules, t =>
      if t.isBetweenRules then rules
      else
        match t with
        | .atKeyword _ => atHead []
        | t => if t.opensCurly then entries else head (t.nest [])
  | atHead open?, t => if open?.isEmpty && t.endsAtRule then afterAtHead t else atHead (t.nest open?)
  | atBlock open?, t => if open?.isEmpty && t.closesCurly then rules else atBlock (t.nest open?)
  | head open?, t => if open?.isEmpty && t.opensCurly then entries else head (t.nest open?)
  | entries, t =>
      if t.closesCurly then rules
      else if t.isSeparator then entries
      else
        match t with
        | .ident _ => name
        | t => value (t.nest [])
  | name, t =>
      if t.isSpace then name
      else if t.endsEntry then afterEntry t
      else value (t.nest [])
  | value open?, t => if open?.isEmpty && t.endsEntry then afterEntry t else value (t.nest open?)

/-- The place after lexemes. -/
def after (p : Place) (ls : List Lexeme) : Place :=
  ls.foldl (fun p l => p.step l.token) p

@[simp] theorem after_nil (p : Place) : p.after [] = p :=
  rfl

@[simp] theorem after_cons (p : Place) (l : Lexeme) (ls : List Lexeme) :
    p.after (l :: ls) = (p.step l.token).after ls :=
  rfl

theorem after_append (p : Place) (ls ls' : List Lexeme) :
    p.after (ls ++ ls') = (p.after ls).after ls' :=
  List.foldl_append

theorem step_rules_of_isBetweenRules {t : Token} (h : t.isBetweenRules = true) :
    rules.step t = rules :=
  if_pos h

/-- Blanks and comments stay where they are. -/
theorem step_of_isSpace (p : Place) {t : Token} (h : t.isSpace = true) : p.step t = p := by
  rw [Token.isSpace, Bool.or_eq_true] at h
  rcases h.imp beq_iff_eq.1 beq_iff_eq.1 with rfl | rfl
  · cases p with
    | rules => rfl
    | entries => rfl
    | name => rfl
    | _ o => cases o <;> rfl
  · cases p with
    | rules => rfl
    | entries => rfl
    | name => rfl
    | _ o => cases o <;> rfl

theorem step_entries (t : Token) :
    entries.step t =
      if t.closesCurly then rules
      else if t.isSeparator then entries
      else
        match t with
        | .ident _ => name
        | t => value (t.nest []) :=
  rfl

/-- Whether a place is outside heads and values: between rules, between entries, between a name and
its colon, or in an at-rule. -/
def isGap : Place → Bool
  | head _ => false
  | value _ => false
  | _ => true

/-- Whether a place is in the head of a rule. -/
def isHead : Place → Bool
  | head _ => true
  | _ => false

/-- Whether a place is in a value. -/
def isValue : Place → Bool
  | value _ => true
  | _ => false

/-- Whether a place is in the block of a rule. -/
def isInBlock : Place → Bool
  | entries => true
  | name => true
  | value _ => true
  | _ => false

/-- The brackets that are open at a place. -/
def open? : Place → List Bracket
  | atHead open? => open?
  | atBlock open? => open?
  | head open? => open?
  | value open? => open?
  | _ => []

/-- A block goes on until the curly bracket that closes it; semicolons close no bracket. -/
theorem step_isInBlock {p : Place} (hp : p.isInBlock = true) {t : Token}
    (ht : (p.open?.isEmpty && t.closesCurly) = false) :
    (p.step t).isInBlock = true ∧ (p.step t).open? = t.nest p.open? := by
  have hvalue : ∀ {o : List Bracket}, (o.isEmpty && t.closesCurly) = false →
      ((value o).step t).isInBlock = true ∧ ((value o).step t).open? = t.nest o := by
    intro o ht
    cases hends : o.isEmpty && t.endsEntry with
    | false =>
        have hstep : (value o).step t = value (t.nest o) := by rw [step, hends]; rfl
        rw [hstep]
        exact ⟨rfl, rfl⟩
    | true =>
        obtain ⟨ho, hend⟩ := Bool.and_eq_true_iff.1 hends
        obtain rfl := List.isEmpty_iff.1 ho
        obtain rfl : t = .semicolon := by
          rw [Token.endsEntry, Bool.or_eq_true] at hend
          exact hend.elim beq_iff_eq.1 fun hc => absurd ht (by simp [hc])
        exact ⟨rfl, rfl⟩
  cases p with
  | value o => exact hvalue ht
  | entries =>
      cases t with
      | closing b => cases b <;> first | exact ⟨rfl, rfl⟩ | exact Bool.noConfusion ht
      | _ => exact ⟨rfl, rfl⟩
  | name =>
      cases t with
      | closing b => cases b <;> first | exact ⟨rfl, rfl⟩ | exact Bool.noConfusion ht
      | _ => exact ⟨rfl, rfl⟩
  | _ => exact Bool.noConfusion hp

theorem after_isInBlock {p : Place} (hp : p.isInBlock = true) {ls : List Lexeme}
    (h : Passes Token.closesCurly p.open? ls) :
    (p.after ls).isInBlock = true ∧ (p.after ls).open? = nesting p.open? ls := by
  induction ls generalizing p with
  | nil => exact ⟨hp, rfl⟩
  | cons l ls ih =>
      obtain ⟨hl, hls⟩ := h
      obtain ⟨hstep, hopen⟩ := step_isInBlock hp hl
      rw [← hopen] at hls
      rw [after_cons, nesting_cons, ← hopen]
      exact ih hstep hls

/-- At that bracket it ends. -/
theorem step_closesCurly {p : Place} (hp : p.isInBlock = true) (ho : p.open? = []) {t : Token}
    (ht : t.closesCurly = true) : p.step t = rules := by
  obtain rfl : t = .closing .curly := beq_iff_eq.1 ht
  cases p with
  | value o =>
      obtain rfl : o = [] := ho
      rfl
  | entries => rfl
  | name => rfl
  | _ => exact Bool.noConfusion hp

/-- A place that is left at a stop outside the brackets opened there is not left up to the next stop. -/
theorem after_of_passes (place : List Bracket → Place) {stop : Token → Bool} (exit : Token → Place)
    (hstep : ∀ o t, (place o).step t = if o.isEmpty && stop t then exit t else place (t.nest o))
    {open? : List Bracket} {ls : List Lexeme} (h : Passes stop open? ls) :
    (place open?).after ls = place (nesting open? ls) := by
  induction ls generalizing open? with
  | nil => rfl
  | cons l ls ih =>
      obtain ⟨hl, hls⟩ := h
      rw [after_cons, hstep, hl, if_neg Bool.false_ne_true, ih hls, nesting_cons]

/-- At the stop it is left. -/
theorem after_stop (place : List Bracket → Place) {stop : Token → Bool} (exit : Token → Place)
    (hstep : ∀ o t, (place o).step t = if o.isEmpty && stop t then exit t else place (t.nest o))
    {open? : List Bracket} {ls : List Lexeme} (h : Passes stop open? ls)
    (hn : nesting open? ls = []) {l : Lexeme} (hl : stop l.token = true) (back : List Lexeme) :
    (place open?).after (ls ++ l :: back) = (exit l.token).after back := by
  rw [after_append, after_of_passes place exit hstep h, hn, after_cons, hstep, hl]
  rfl

end Place

/-! ### What is open -/

open Place

/-- What has been opened since the last whole rule, and the place at its end. -/
inductive Opened : List Lexeme → Place → Prop
  | rules : Opened [] rules
  | atHead {name : String} {text : List Char} {ls : List Lexeme} (h : Passes Token.endsAtRule [] ls) :
      Opened (⟨.atKeyword name, text⟩ :: ls) (atHead (nesting [] ls))
  | atBlock {name : String} {text : List Char} {ls body : List Lexeme} {l : Lexeme}
      (h : Passes Token.endsAtRule [] ls) (hn : nesting [] ls = []) (hl : l.token.opensCurly = true)
      (hbody : Passes Token.closesCurly [] body) :
      Opened (⟨.atKeyword name, text⟩ :: (ls ++ l :: body)) (atBlock (nesting [] body))
  | head {ls : List Lexeme} (hs : StartsRule ls) (h : Passes Token.opensCurly [] ls) :
      Opened ls (head (nesting [] ls))
  | body {ls body : List Lexeme} {l : Lexeme} (hs : StartsRule (ls ++ l :: body))
      (h : Passes Token.opensCurly [] ls) (hn : nesting [] ls = []) (hl : l.token.opensCurly = true)
      (hbody : Passes Token.closesCurly [] body) : Opened (ls ++ l :: body) (entries.after body)

/-- Up to its end a text is faulty, or it holds whole rules and what is open. -/
def ReadsTo (first : Bool) (ls : List Lexeme) : Prop :=
  (∀ back, sheet? first (ls ++ back) = none) ∨
    ∃ rs first' rest, Opened rest (rules.after ls) ∧ rest <:+ ls ∧
      ∀ back, sheet? first (ls ++ back) = (sheet? first' (rest ++ back)).map (rs ++ ·)

namespace ReadsTo

variable {first first' : Bool} {ls rest : List Lexeme}

theorem of_opened (h : Opened ls (rules.after ls)) : ReadsTo first ls :=
  Or.inr ⟨[], first, ls, h, List.suffix_rfl, fun back => by simp⟩

theorem of_rest (rs : List Rule) (hafter : rules.after ls = rules.after rest) (hsuffix : rest <:+ ls)
    (hread : ∀ back, sheet? first (ls ++ back) = (sheet? first' (rest ++ back)).map (rs ++ ·))
    (h : ReadsTo first' rest) : ReadsTo first ls := by
  rcases h with hnone | ⟨rs', first'', rest', hopen, hsuffix', hread'⟩
  · refine Or.inl fun back => ?_
    rw [hread, hnone]
    rfl
  · refine Or.inr ⟨rs ++ rs', first'', rest', hafter ▸ hopen, hsuffix'.trans hsuffix, fun back => ?_⟩
    rw [hread, hread', Option.map_map]
    congr 1
    funext rs''
    exact (List.append_assoc rs rs' rs'').symm

end ReadsTo

theorem after_rules_of_startsRule {ls : List Lexeme} (h : StartsRule ls) :
    rules.after ls = (head []).after ls := by
  obtain ⟨⟨token, text⟩, ls, rfl, hb, hn⟩ := h
  rw [after_cons, after_cons]
  congr 1
  cases token with
  | atKeyword name => exact absurd rfl (hn name)
  | blank => exact Bool.noConfusion hb
  | comment => exact Bool.noConfusion hb
  | hidden => exact Bool.noConfusion hb
  | _ => rfl

/-- A rule whose body is closed is faulty or read, whatever follows it. -/
theorem rule?_closed_cases {head body : List Lexeme} {l r : Lexeme}
    (h : Passes Token.opensCurly [] head) (hn : nesting [] head = [])
    (hl : l.token.opensCurly = true) (hbody : Passes Token.closesCurly [] body)
    (hnest : nesting [] body = []) (hr : r.token.closesCurly = true) :
    (∀ back, rule? (head ++ l :: (body ++ r :: back)) = none) ∨
      ∃ first, ∀ back, rule? (head ++ l :: (body ++ r :: back)) = some (first, back) := by
  have hread := rule?_closed h hn hl hbody hnest hr
  cases hname : declaresCustomName (head ++ [l]) with
  | true => exact Or.inl fun back => by rw [hread, hname, if_pos rfl]
  | false =>
      simp only [hname, if_neg Bool.false_ne_true] at hread
      cases hss : (selectors (textOf head)).toOption with
      | none => exact Or.inl fun back => by rw [hread, hss, Option.bind_none]
      | some ss =>
          cases hds : block? body with
          | none =>
              exact Or.inl fun back => by rw [hread, hss, Option.bind_some, hds, Option.map_none]
          | some ds =>
              exact Or.inr ⟨⟨ss, ds⟩, fun back => by
                rw [hread, hss, Option.bind_some, hds, Option.map_some]⟩

/-- A rule is read, or it is faulty, or it is what is open. -/
theorem readsTo_rule {ls : List Lexeme} (hs : StartsRule ls) (first : Bool)
    (ih : ∀ rest : List Lexeme, rest.length < ls.length → ReadsTo false rest) : ReadsTo first ls := by
  have hafter := after_rules_of_startsRule hs
  rcases passes_or_exists_stop Token.opensCurly [] ls with h | ⟨front, l, body, rfl, h, hn, hl⟩
  · refine .of_opened ?_
    rw [hafter, after_of_passes head (fun _ => entries) (fun _ _ => rfl) h]
    exact .head hs h
  · rw [after_stop head (fun _ => entries) (fun _ _ => rfl) h hn hl] at hafter
    rcases passes_or_exists_stop Token.closesCurly [] body with
      hbody | ⟨body, r, rest, rfl, hbody, hnest, hr⟩
    · refine .of_opened ?_
      rw [hafter]
      exact .body hs h hn hl hbody
    · obtain ⟨hin, hopen⟩ := after_isInBlock (p := entries) rfl hbody
      have hrules : rules.after (front ++ l :: (body ++ r :: rest)) = rules.after rest := by
        rw [hafter, after_append, after_cons, step_closesCurly hin (hopen.trans hnest) hr]
      have happend : ∀ back, front ++ l :: (body ++ r :: rest) ++ back =
          front ++ l :: (body ++ r :: (rest ++ back)) := fun back => by simp
      rcases rule?_closed_cases h hn hl hbody hnest hr with hnone | ⟨r', hsome⟩
      · refine Or.inl fun back => ?_
        rw [sheet?_rule (hs.append back), happend, hnone]
        rfl
      · refine .of_rest [r'] hrules ⟨front ++ l :: (body ++ [r]), by simp⟩ (fun back => ?_)
          (ih rest (by simp; omega))
        rw [sheet?_rule (hs.append back), happend, hsome]
        rfl

/-- An at-rule is passed over, or it is a fault, or it is what is open. -/
theorem readsTo_atRule (name : String) (text : List Char) (ls : List Lexeme) (first : Bool)
    (ih : ∀ rest : List Lexeme, rest.length ≤ ls.length → ReadsTo false rest) :
    ReadsTo first (⟨.atKeyword name, text⟩ :: ls) := by
  have hafter : rules.after (⟨.atKeyword name, text⟩ :: ls) = (atHead []).after ls := rfl
  cases hcharset : first && Text.lower name.toList == "charset".toList with
  | false => exact Or.inl fun back => sheet?_atRule hcharset text (ls ++ back)
  | true =>
      obtain ⟨rfl, hname⟩ := Bool.and_eq_true_iff.1 hcharset
      rcases passes_or_exists_stop Token.endsAtRule [] ls with h | ⟨front, l, rest, rfl, h, hn, hl⟩
      · refine .of_opened ?_
        rw [hafter, after_of_passes atHead afterAtHead (fun _ _ => rfl) h]
        exact .atHead h
      · rw [after_stop atHead afterAtHead (fun _ _ => rfl) h hn hl] at hafter
        have hread : ∀ back, sheet? true (⟨.atKeyword name, text⟩ :: (front ++ l :: rest) ++ back) =
            sheet? false (afterAtRule (l :: rest ++ back)) := by
          intro back
          have hpasses : Passes Token.endsAtRule [] (⟨.atKeyword name, text⟩ :: front) := ⟨rfl, h⟩
          have hcut := cutAt_append_stop hpasses hn hl (rest ++ back)
          rw [List.cons_append, sheet?_charset (beq_iff_eq.1 hname), List.append_assoc,
            List.cons_append, ← List.cons_append, hcut]
        cases hcurly : l.token.opensCurly with
        | false =>
            have hsemicolon : l.token.isSemicolon = true := by
              rwa [Token.endsAtRule, hcurly, Bool.or_false] at hl
            rw [afterAtHead, if_pos hsemicolon] at hafter
            refine .of_rest [] hafter ⟨⟨.atKeyword name, text⟩ :: (front ++ [l]), by simp⟩
              (fun back => ?_) (ih rest (by simp; omega))
            rw [hread, List.cons_append, afterAtRule, hcurly, if_neg Bool.false_ne_true]
            simp
        | true =>
            have hblock : afterAtHead l.token = atBlock [] := by
              rw [token_of_opensCurly hcurly]
              rfl
            rw [hblock] at hafter
            rcases passes_or_exists_stop Token.closesCurly [] rest with
              hbody | ⟨body, r, rest, rfl, hbody, hnest, hr⟩
            · refine .of_opened ?_
              rw [hafter, after_of_passes atBlock (fun _ => rules)
                (fun _ _ => rfl) hbody]
              exact .atBlock h hn hcurly hbody
            · rw [after_stop atBlock (fun _ => rules) (fun _ _ => rfl) hbody hnest
                hr] at hafter
              refine .of_rest [] hafter
                ⟨⟨.atKeyword name, text⟩ :: (front ++ l :: (body ++ [r])), by simp⟩
                (fun back => ?_) (ih rest (by simp; omega))
              have hcut := cutAt_append_stop hbody hnest hr (rest ++ back)
              rw [hread, List.cons_append, afterAtRule, hcurly, if_pos rfl, List.append_assoc,
                List.cons_append, hcut]
              simp

/-- The rules in front of a place are read, or one of them is faulty. -/
theorem readsTo (first : Bool) (ls : List Lexeme) : ReadsTo first ls := by
  generalize hn : ls.length = n
  induction n using Nat.strongRecOn generalizing first ls with
  | ind n ih =>
      cases ls with
      | nil => exact .of_opened .rules
      | cons l ls =>
          rw [List.length_cons] at hn
          cases hb : l.token.isBetweenRules with
          | true =>
              have hafter : rules.after (l :: ls) = rules.after ls := by
                rw [after_cons, step_rules_of_isBetweenRules hb]
              refine .of_rest [] hafter (List.suffix_cons l ls) (fun back => ?_)
                (ih ls.length (by omega) first ls rfl)
              rw [List.cons_append, sheet?_between hb]
              simp
          | false =>
              by_cases hat : ∃ name, l.token = .atKeyword name
              · obtain ⟨name, hname⟩ := hat
                obtain ⟨token, text⟩ := l
                obtain rfl : token = .atKeyword name := hname
                exact readsTo_atRule name text ls first
                  fun rest hlt => ih rest.length (by omega) false rest rfl
              · have hs : StartsRule (l :: ls) :=
                  ⟨l, ls, rfl, hb, fun name hname => hat ⟨name, hname⟩⟩
                exact readsTo_rule hs first
                  fun rest hlt => ih rest.length (by simp at hlt; omega) false rest rfl

/-! ### What says nothing -/

section

variable {c : Lexeme} (hc : c.token.isSpace = true)
include hc

theorem space_cases : c.token = .blank ∨ c.token = .comment := by
  rw [Token.isSpace, Bool.or_eq_true] at hc
  exact hc.imp beq_iff_eq.1 beq_iff_eq.1

theorem nest_space (open? : List Bracket) : c.token.nest open? = open? := by
  rcases space_cases hc with h | h
  · rw [h]
    rfl
  · rw [h]
    rfl

theorem isSeparator_of_isSpace : c.token.isSeparator = true := by
  rw [Token.isSeparator, hc]
  rfl

/-- A blank or a comment is no stop. -/
theorem stop_of_isSpace {stop : Token → Bool} (hblank : stop .blank = false)
    (hcomment : stop .comment = false) : stop c.token = false := by
  rcases space_cases hc with h | h
  · rw [h, hblank]
  · rw [h, hcomment]

theorem isBetweenRules_of_isSpace : c.token.isBetweenRules = true := by
  rw [Token.isBetweenRules, hc]
  rfl

/-- A cut passes through a blank or a comment behind the lexemes that it passes through. -/
theorem cutAt_insert {stop : Token → Bool} (hstop : stop c.token = false) {open? : List Bracket}
    {front : List Lexeme} (h : Passes stop open? front) (back : List Lexeme) :
    ∃ more rest, cutAt stop open? (front ++ back) = (front ++ more, rest) ∧
      cutAt stop open? (front ++ c :: back) = (front ++ c :: more, rest) := by
  refine ⟨_, _, cutAt_append h back, ?_⟩
  rw [cutAt_append h, cutAt, hstop, Bool.and_false, if_neg Bool.false_ne_true, nest_space hc]

/-- Between a name and its colon a blank or a comment says nothing. -/
theorem value?_insert {front : List Lexeme} (h : ∀ l ∈ front, l.token.isSpace = true)
    (back : List Lexeme) : Entry.value? (front ++ c :: back) = Entry.value? (front ++ back) := by
  have hskip : ∀ ls : List Lexeme, (∀ l ∈ ls, l.token.isSpace = true) →
      skipSpace (ls ++ back) = skipSpace back := fun ls => List.dropWhile_append_of_pos
  have hcons : front ++ c :: back = (front ++ [c]) ++ back := by simp
  rw [Entry.value?, Entry.value?, hskip front h, hcons, hskip (front ++ [c])]
  intro l hl
  rcases List.mem_append.1 hl with hl | hl
  · exact h l hl
  · exact List.mem_singleton.1 hl ▸ hc

end

theorem passes_or {stop stop' : Token → Bool} {open? : List Bracket} {ls : List Lexeme}
    (h : Passes stop open? ls) (h' : Passes stop' open? ls) :
    Passes (fun t => stop t || stop' t) open? ls := by
  induction ls generalizing open? with
  | nil => trivial
  | cons l ls ih =>
      refine ⟨?_, ih h.2 h'.2⟩
      rw [Bool.and_or_distrib_left, h.1, h'.1]
      rfl

/-- After the name of an entry there are blanks and comments, or a value has begun. -/
theorem after_name {ls : List Lexeme} (h : Passes Token.isSemicolon [] ls)
    (h' : Passes Token.closesCurly [] ls) :
    (name.after ls = name ∧ ∀ l ∈ ls, l.token.isSpace = true) ∨
      name.after ls = value (nesting [] ls) := by
  induction ls with
  | nil => exact Or.inl ⟨rfl, by simp⟩
  | cons l ls ih =>
      obtain ⟨hl, hls⟩ := h
      obtain ⟨hl', hls'⟩ := h'
      cases hspace : l.token.isSpace with
      | true =>
          have hstep : name.step l.token = name := if_pos hspace
          rw [after_cons, nesting_cons, nest_space hspace, hstep]
          rw [nest_space hspace] at hls hls'
          exact (ih hls hls').imp_left fun ⟨hname, hall⟩ =>
            ⟨hname, List.forall_mem_cons.2 ⟨hspace, hall⟩⟩
      | false =>
          have hends : l.token.endsEntry = false := by
            rw [Token.endsEntry, Bool.or_eq_false_iff]
            exact ⟨hl, hl'⟩
          have hstep : name.step l.token = value (l.token.nest []) := by
            rw [step, hspace, hends]
            rfl
          refine Or.inr ?_
          rw [after_cons, hstep, nesting_cons]
          exact after_of_passes value afterEntry (fun _ _ => rfl)
            (passes_or hls hls')

/-- A semicolon outside brackets ends the entry of a name. -/
theorem after_name_semicolon {ls rest : List Lexeme} {l : Lexeme} (hs : Passes Token.isSemicolon [] ls)
    (hn : nesting [] ls = []) (hl : l.token.isSemicolon = true)
    (h : Passes Token.closesCurly [] (ls ++ l :: rest)) :
    name.after (ls ++ l :: rest) = entries.after rest ∧ Passes Token.closesCurly [] rest := by
  obtain ⟨token, text⟩ := l
  obtain rfl : token = .semicolon := beq_iff_eq.1 hl
  obtain ⟨hfront, hrest⟩ := passes_append.1 h
  rw [hn] at hrest
  refine ⟨?_, hrest.2⟩
  rw [after_append, after_cons]
  rcases after_name hs hfront with ⟨hname, -⟩ | hvalue
  · rw [hname]
    rfl
  · rw [hvalue, hn]
    rfl

/-- Between entries separators are passed over. -/
theorem after_separator {l : Lexeme} (hs : l.token.isSeparator = true) {body : List Lexeme}
    (h : Passes Token.closesCurly [] (l :: body)) :
    entries.after (l :: body) = entries.after body ∧ Passes Token.closesCurly [] body := by
  obtain ⟨hl, hbody⟩ := h
  have hcurly : l.token.closesCurly = false := hl
  have hstep : entries.step l.token = entries := by
    rw [step_entries, hcurly, hs]
    rfl
  have hnest : (entries.step l.token).open? = l.token.nest [] :=
    (step_isInBlock (p := entries) rfl hl).2
  rw [hstep] at hnest
  rw [← hnest] at hbody
  exact ⟨by rw [after_cons, hstep], hbody⟩

/-- An at-rule ends where its head ends. -/
theorem sheet?_atRule_congr (name : String) (text : List Char) (first : Bool) {ls ls' : List Lexeme}
    (h : afterAtRule (cutAt Token.endsAtRule [] (⟨.atKeyword name, text⟩ :: ls)).2 =
      afterAtRule (cutAt Token.endsAtRule [] (⟨.atKeyword name, text⟩ :: ls')).2) :
    sheet? first (⟨.atKeyword name, text⟩ :: ls) = sheet? first (⟨.atKeyword name, text⟩ :: ls') := by
  cases hcharset : first && Text.lower name.toList == "charset".toList with
  | false => rw [sheet?_atRule hcharset, sheet?_atRule hcharset]
  | true =>
      obtain ⟨rfl, hname⟩ := Bool.and_eq_true_iff.1 hcharset
      rw [sheet?_charset (beq_iff_eq.1 hname), sheet?_charset (beq_iff_eq.1 hname), h]

/-- After the name of an entry a blank or a comment says nothing up to the colon, and nothing behind
the entry if it says nothing in the entries that follow. -/
theorem block?_insert_name {n : String} {text : List Char} {body : List Lexeme}
    (h : Passes Token.closesCurly [] body) (hp : (name.after body).isGap = true) {c : Lexeme}
    (hc : c.token.isSpace = true) (back : List Lexeme)
    (ih : ∀ rest : List Lexeme, rest.length < body.length → Passes Token.closesCurly [] rest →
      (entries.after rest).isGap = true → block? (rest ++ c :: back) = block? (rest ++ back)) :
    block? (⟨.ident n, text⟩ :: (body ++ c :: back)) =
      block? (⟨.ident n, text⟩ :: (body ++ back)) := by
  rw [block?_ident, block?_ident]
  rcases passes_or_exists_stop Token.isSemicolon [] body with
    hs | ⟨front, s, rest, rfl, hs, hnest, hsemicolon⟩
  · rcases after_name hs h with ⟨-, hall⟩ | hvalue
    · obtain ⟨more, rest, hcut, hcut'⟩ := cutAt_insert hc (stop_of_isSpace hc rfl rfl) hs back
      rw [hcut, hcut']
      dsimp only
      rw [value?_insert hc hall]
    · rw [hvalue] at hp
      exact Bool.noConfusion hp
  · obtain ⟨hentries, hrest⟩ := after_name_semicolon hs hnest hsemicolon h
    have hcut := fun back => cutAt_append_stop hs hnest hsemicolon (rest ++ back)
    rw [hentries] at hp
    rw [List.append_assoc, List.append_assoc, List.cons_append, List.cons_append, hcut, hcut]
    dsimp only
    rw [List.drop_one, List.drop_one, List.tail_cons, List.tail_cons,
      ih rest (by rw [List.length_append, List.length_cons]; omega) hrest hp]

/-- In a block a blank or a comment says nothing between entries, and between a name and its colon. -/
theorem block?_insert {body : List Lexeme} (h : Passes Token.closesCurly [] body)
    (hp : (entries.after body).isGap = true) {c : Lexeme} (hc : c.token.isSpace = true)
    (back : List Lexeme) : block? (body ++ c :: back) = block? (body ++ back) := by
  generalize hn : body.length = n
  induction n using Nat.strongRecOn generalizing body with
  | ind n ih =>
      cases body with
      | nil => exact block?_separator (isSeparator_of_isSpace hc) back
      | cons l body =>
          rw [List.length_cons] at hn
          rw [List.cons_append, List.cons_append]
          cases hs : l.token.isSeparator with
          | true =>
              obtain ⟨hentries, hbody⟩ := after_separator hs h
              rw [hentries] at hp
              rw [block?_separator hs, block?_separator hs]
              exact ih body.length (by omega) hbody hp rfl
          | false =>
              by_cases hname : ∃ name, l.token = .ident name
              · obtain ⟨name, hname⟩ := hname
                obtain ⟨token, text⟩ := l
                obtain rfl : token = .ident name := hname
                exact block?_insert_name h.2 hp hc back
                  fun rest hlt hrest hgap => ih rest.length (by omega) hrest hgap rfl
              · have hident : ∀ name, l.token ≠ .ident name := fun name h => hname ⟨name, h⟩
                rw [block?_malformed hs hident, block?_malformed hs hident]

/-- In what is open a blank or a comment says nothing, outside heads and values. -/
theorem Opened.sheet?_insert {ls : List Lexeme} {p : Place} (h : Opened ls p) (hp : p.isGap = true)
    {c : Lexeme} (hc : c.token.isSpace = true) (first : Bool) (back : List Lexeme) :
    sheet? first (ls ++ c :: back) = sheet? first (ls ++ back) := by
  cases h with
  | rules => exact sheet?_between (isBetweenRules_of_isSpace hc) first back
  | head => exact Bool.noConfusion hp
  | @atHead name text ls h =>
      have hpasses : Passes Token.endsAtRule [] (⟨.atKeyword name, text⟩ :: ls) := ⟨rfl, h⟩
      obtain ⟨more, rest, hcut, hcut'⟩ := cutAt_insert hc (stop_of_isSpace hc rfl rfl) hpasses back
      rw [List.cons_append] at hcut hcut'
      rw [List.cons_append, List.cons_append]
      exact sheet?_atRule_congr name text first (by rw [hcut', hcut])
  | @atBlock name text ls body l h hn hl hbody =>
      obtain ⟨more, rest, hcut, hcut'⟩ := cutAt_insert hc (stop_of_isSpace hc rfl rfl) hbody back
      have hends : l.token.endsAtRule = true := by rw [Token.endsAtRule, hl, Bool.or_true]
      have hpasses : Passes Token.endsAtRule [] (⟨.atKeyword name, text⟩ :: ls) := ⟨rfl, h⟩
      have hhead := fun back => cutAt_append_stop hpasses hn hends (body ++ back)
      simp only [List.cons_append, List.append_assoc] at hhead ⊢
      refine sheet?_atRule_congr name text first ?_
      rw [hhead, hhead, afterAtRule, afterAtRule, if_pos hl, if_pos hl, hcut, hcut']
  | @body ls body l hs h hn hl hbody =>
      obtain ⟨more, rest, hcut, hcut'⟩ := cutAt_insert hc (stop_of_isSpace hc rfl rfl) hbody back
      rw [sheet?_rule (hs.append _), sheet?_rule (hs.append _), List.append_assoc, List.append_assoc,
        List.cons_append, List.cons_append, rule?_head h hn hl, rule?_head h hn hl, hcut, hcut']
      dsimp only
      rw [block?_insert hbody hp hc]

/-- A blank or a comment says nothing outside heads and values. -/
theorem sheet?_insert {ls : List Lexeme} (hp : (rules.after ls).isGap = true) {c : Lexeme}
    (hc : c.token.isSpace = true) (first : Bool) (back : List Lexeme) :
    sheet? first (ls ++ c :: back) = sheet? first (ls ++ back) := by
  rcases readsTo first ls with hnone | ⟨rs, first', rest, hopen, -, hread⟩
  · rw [hnone, hnone]
  · rw [hread, hread, hopen.sheet?_insert hp hc]

theorem sheet?_spaces {ls : List Lexeme} (hp : (rules.after ls).isGap = true) {mid : List Lexeme}
    (hmid : ∀ l ∈ mid, l.token.isSpace = true) (first : Bool) (back : List Lexeme) :
    sheet? first (ls ++ (mid ++ back)) = sheet? first (ls ++ back) := by
  induction mid with
  | nil => rfl
  | cons l mid ih =>
      obtain ⟨hl, hmid⟩ := List.forall_mem_cons.1 hmid
      rw [List.cons_append, sheet?_insert hp hl, ih hmid]

/-- In the head of a rule a text that is in no selector makes the sheet faulty. -/
theorem Opened.sheet?_faulty {ls : List Lexeme} {p : Place} (h : Opened ls p) (hp : p.isHead = true)
    {c : Lexeme} (hc : c.token.isSpace = true) (hslash : '/' ∈ c.text) (first : Bool)
    (back : List Lexeme) : sheet? first (ls ++ c :: back) = none := by
  cases h with
  | @head ls hs h =>
      obtain ⟨more, rest, -, hcut⟩ := cutAt_insert hc (stop_of_isSpace hc rfl rfl) h back
      have hmem : '/' ∈ textOf (ls ++ c :: more) :=
        List.mem_flatMap.2 ⟨c, List.mem_append_right ls List.mem_cons_self, hslash⟩
      have hrule : rule? (ls ++ c :: back) = none := by
        rw [rule?, hcut]
        split
        · rfl
        · dsimp only
          split
          · rfl
          · split
            · rfl
            · next ss heq => exact absurd (selectors_chars heq _ hmem) (by decide)
      rw [sheet?_rule (hs.append _), hrule]
      rfl
  | @body ls body l hs h hn hl hbody =>
      have hin := (after_isInBlock (p := entries) rfl hbody).1
      generalize entries.after body = p at hp hin
      cases p with
      | head => exact Bool.noConfusion hin
      | _ => exact Bool.noConfusion hp
  | _ => exact Bool.noConfusion hp

/-- In the head of a rule a text that is in no selector makes the sheet faulty. -/
theorem sheet?_faulty {ls : List Lexeme} (hp : (rules.after ls).isHead = true) {c : Lexeme}
    (hc : c.token.isSpace = true) (hslash : '/' ∈ c.text) (first : Bool) (back : List Lexeme) :
    sheet? first (ls ++ c :: back) = none := by
  rcases readsTo first ls with hnone | ⟨rs, first', rest, hopen, -, hread⟩
  · exact hnone _
  · rw [hread, hopen.sheet?_faulty hp hc hslash]
    rfl

end Sheet
end Montage
