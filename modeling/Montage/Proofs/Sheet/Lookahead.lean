import Montage.Proofs.Sheet.Scan

/-!
# Tokens end at blanks

A token that ends before a blank does not see what follows the blank.

**Input.** A text that goes on with a blank, and two continuations behind the blank.

**Algorithm.** Every reader of a piece of a token either stops before the blank or swallows it. What
swallows the blank is longer than the text before it, so a short enough piece is the same in front of
both continuations. An opening round bracket is the one exception: an address is recognised through
blanks, so it must be known that something stands before the blank.

**Results.**
* `Token.scan_eq_of_le`: the token is the same.
* `lexemes_append_blank`: so are all lexemes in front of the blank.
-/

namespace Montage
namespace Sheet
namespace Token

/-! ### Readers take what they skip -/

theorem min_le_name (k : Nat) (cs : List Char) : min k cs.length ≤ (name k cs).2 := by
  induction cs generalizing k with
  | nil => simp
  | cons c cs ih =>
      cases k with
      | zero => simp
      | succ k =>
          rw [name, List.length_cons, Nat.add_min_add_right]
          exact Nat.succ_le_succ (ih k)

theorem min_le_stringLength (q : Char) (k : Nat) (cs : List Char) :
    min k cs.length ≤ stringLength q k cs := by
  induction cs generalizing k with
  | nil => simp
  | cons c cs ih =>
      cases k with
      | zero => simp
      | succ k =>
          rw [stringLength, List.length_cons, Nat.add_min_add_right]
          exact Nat.succ_le_succ (ih k)

theorem min_le_addressLength (k : Nat) (cs : List Char) : min k cs.length ≤ addressLength k cs := by
  induction cs generalizing k with
  | nil => simp
  | cons c cs ih =>
      cases k with
      | zero => simp
      | succ k =>
          rw [addressLength, List.length_cons, Nat.add_min_add_right]
          exact Nat.succ_le_succ (ih k)

theorem isStop_of_isAsciiBlank {d : Char} (h : Text.isAsciiBlank d = true) : isStop d = true := by
  rw [isStop, h, Bool.true_or]

variable {w r : List Char} {d : Char}

theorem atNewline_append (w : List Char) (d : Char) (r r' : List Char) :
    atNewline (w ++ d :: r') = atNewline (w ++ d :: r) := by
  cases w <;> rfl

theorem head?_append (w : List Char) (d : Char) (r r' : List Char) :
    (w ++ d :: r').head? = (w ++ d :: r).head? := by
  cases w <;> rfl

/-- Two choices of lengths agree where they are short, if their branches do. -/
theorem ite_eq_of_le {C : Prop} [Decidable C] {a a' b b' n : Nat} (ha : C → a ≤ n → a' = a)
    (hb : ¬C → b ≤ n → b' = b) (h : (if C then a else b) ≤ n) :
    (if C then a' else b') = if C then a else b := by
  split
  · next hc => exact ha hc (by rwa [if_pos hc] at h)
  · next hc => exact hb hc (by rwa [if_neg hc] at h)

theorem newlineLength_cons (c : Char) (cs : List Char) :
    newlineLength (c :: cs) =
      if c = '\r' ∧ cs.head? = some '\n' then 2 else if isNewline c then 1 else 0 := by
  cases cs with
  | nil => simp [newlineLength]
  | cons b cs =>
      by_cases h : c = '\r' ∧ b = '\n'
      · obtain ⟨rfl, rfl⟩ := h
        rfl
      · rw [if_neg (by simpa using h), newlineLength]
        rintro _ rfl hb
        exact h ⟨rfl, (List.cons.inj hb).1⟩

theorem escapeEndLength_cons (c : Char) (cs : List Char) :
    escapeEndLength (c :: cs) = if c = ' ' ∨ c = '\t' then 1 else newlineLength (c :: cs) := by
  by_cases hc : c = ' ' ∨ c = '\t'
  · rcases hc with rfl | rfl <;> rfl
  · rw [if_neg hc, escapeEndLength]
    · exact fun _ hspace => hc (Or.inl (List.cons.inj hspace).1)
    · exact fun _ htab => hc (Or.inr (List.cons.inj htab).1)

theorem commentLength_cons (c : Char) (cs : List Char) :
    commentLength (c :: cs) = if c = '*' ∧ cs.head? = some '/' then 2 else commentLength cs + 1 := by
  by_cases h : c = '*' ∧ cs.head? = some '/'
  · obtain ⟨rfl, hhead⟩ := h
    cases cs with
    | nil => exact absurd hhead (by simp)
    | cons e cs =>
        obtain rfl := Option.some.inj hhead
        rfl
  · rw [if_neg h, commentLength]
    rintro cs rfl rfl
    exact h ⟨rfl, rfl⟩

theorem faultyAddressLength_cons (c : Char) (cs : List Char) :
    faultyAddressLength (c :: cs) =
      if c = ')' then 1
      else if c = '\\' ∧ (cs.head? = some ')' ∨ cs.head? = some '\\') then
        faultyAddressLength (cs.drop 1) + 2
      else faultyAddressLength cs + 1 := by
  by_cases hround : c = ')'
  · subst hround
    rfl
  · rw [if_neg hround]
    by_cases h : c = '\\' ∧ (cs.head? = some ')' ∨ cs.head? = some '\\')
    · rw [if_pos h]
      obtain ⟨rfl, hhead⟩ := h
      cases cs with
      | nil => exact absurd hhead (by simp)
      | cons e cs =>
          rcases hhead with hhead | hhead
          · obtain rfl := Option.some.inj hhead
            rfl
          · obtain rfl := Option.some.inj hhead
            rfl
    · rw [if_neg h, faultyAddressLength]
      · exact hround
      · rintro cs rfl rfl
        exact h ⟨rfl, Or.inl rfl⟩
      · rintro cs rfl rfl
        exact h ⟨rfl, Or.inr rfl⟩

theorem atName_cons (c : Char) (cs : List Char) :
    atName (c :: cs) =
      if c = '-' then cs.head?.any fun e => isNameStart e || e == '-' || e == '\\'
      else if c = '\\' then !atNewline cs
      else isNameStart c := by
  by_cases hhyphen : c = '-'
  · subst hhyphen
    cases cs <;> rfl
  · by_cases hescape : c = '\\'
    · subst hescape
      rfl
    · rw [if_neg hhyphen, if_neg hescape, atName]
      · exact fun _ _ h => absurd h hhyphen
      · exact fun h => absurd h hescape

theorem unitLength_eq (cs : List Char) :
    unitLength cs =
      if cs.head? = some '%' then 1 else if atName cs then (name 0 cs).2 else 0 := by
  by_cases h : cs.head? = some '%'
  · obtain ⟨cs, rfl⟩ := List.head?_eq_some_iff.1 h
    rfl
  · rw [if_neg h, unitLength]
    rintro cs rfl
    exact h rfl

theorem atNumber_cons (c : Char) (cs : List Char) :
    atNumber (c :: cs) = if c = '.' then atDigit cs else Decimal.isDigit c := by
  by_cases h : c = '.'
  · subst h
    rfl
  · rw [if_neg h, atNumber]
    · rfl
    · exact fun _ hc => h (List.cons.inj hc).1

/-- A text that is not blank: its leading blanks, and the first character after them. -/
theorem exists_blanks_append (h : ∃ e ∈ w, Text.isAsciiBlank e = false) :
    ∃ b c v, w = b ++ c :: v ∧ (∀ e ∈ b, Text.isAsciiBlank e = true) ∧
      Text.isAsciiBlank c = false := by
  induction w with
  | nil => simp at h
  | cons e w ih =>
      cases he : Text.isAsciiBlank e with
      | false => exact ⟨[], e, w, rfl, by simp, he⟩
      | true =>
          obtain ⟨f, hf, hblank⟩ := h
          have hmem : f ∈ w := by
            rcases List.mem_cons.1 hf with rfl | hf
            · exact Bool.noConfusion (hblank.symm.trans he)
            · exact hf
          obtain ⟨b, c, v, rfl, hb, hc⟩ := ih ⟨f, hmem, hblank⟩
          exact ⟨e :: b, c, v, rfl, List.forall_mem_cons.2 ⟨he, hb⟩, hc⟩

theorem address?_blanks {b : List Char} {c : Char} (hb : ∀ e ∈ b, Text.isAsciiBlank e = true)
    (hc : Text.isAsciiBlank c = false) (cs : List Char) :
    address? (b ++ c :: cs) =
      if c = '"' ∨ c = '\'' then none else some (b.length + addressLength 0 (c :: cs)) := by
  have hblanks : (b ++ c :: cs).takeWhile Text.isAsciiBlank = b := by
    rw [List.takeWhile_append_of_pos hb, List.takeWhile_cons_of_neg (Bool.eq_false_iff.1 hc),
      List.append_nil]
  rw [address?, hblanks, List.drop_left]
  split
  · next heq => rw [if_pos (Or.inl (List.cons.inj heq).1)]
  · next heq => rw [if_pos (Or.inr (List.cons.inj heq).1)]
  · next heq =>
      rw [(List.cons.inj heq).1]
      rfl
  · next hdouble hsingle _ =>
      rw [if_neg]
      rintro (rfl | rfl)
      · exact hdouble _ rfl
      · exact hsingle _ rfl

theorem blanks_le_address? {cs : List Char} {k : Nat} (h : address? cs = some k) :
    (cs.takeWhile Text.isAsciiBlank).length ≤ k := by
  rw [address?] at h
  split at h
  · exact absurd h (by simp)
  · exact absurd h (by simp)
  · obtain rfl := Option.some.inj h
    exact Nat.le_succ _
  · obtain rfl := Option.some.inj h
    exact Nat.le_add_right _ _

theorem take_eq_iff {n : Nat} {l : List Char} (hl : d ∉ l) (r' : List Char) :
    (w ++ d :: r').take n = l ↔ (w ++ d :: r).take n = l := by
  constructor
  · intro h
    have hle := le_length_of_take h hl
    rwa [List.take_append_of_le_length hle] at h ⊢
  · intro h
    have hle := le_length_of_take h hl
    rwa [List.take_append_of_le_length hle] at h ⊢

/-- The digits of a numeric escape. -/
def hexDigits (cs : List Char) : List Char :=
  (cs.take 6).takeWhile fun c => (Decimal.hexDigit? c).isSome

theorem hexDigits_append (hd : (Decimal.hexDigit? d).isSome = false) :
    hexDigits (w ++ d :: r) = hexDigits w := by
  rw [hexDigits, hexDigits]
  generalize 6 = n
  induction w generalizing n with
  | nil =>
      cases n with
      | zero => rfl
      | succ n => simp [hd]
  | cons c w ih =>
      cases n with
      | zero => rfl
      | succ n =>
          rw [List.cons_append, List.take_succ_cons, List.take_succ_cons, List.takeWhile_cons,
            List.takeWhile_cons, ih n]

theorem escape_cons (c : Char) (cs : List Char) :
    escape (c :: cs) =
      if (hexDigits (c :: cs)).isEmpty then (if c.toNat = 0 then Char.ofNat 0xFFFD else c, 1)
      else
        (codePoint ((hexDigits (c :: cs)).foldl (fun n d => 16 * n + (Decimal.hexDigit? d).getD 0) 0),
          (hexDigits (c :: cs)).length +
            escapeEndLength ((c :: cs).drop (hexDigits (c :: cs)).length)) :=
  rfl

section

variable (hd : Text.isAsciiBlank d = true) (r' : List Char)
include hd

theorem ne_of_isAsciiBlank {e : Char} (he : isStop e = false) : d ≠ e :=
  ne_of_isStop (isStop_of_isAsciiBlank hd) he

theorem takeWhile_blank_eq_of_le
    (h : ((w ++ d :: r).takeWhile Text.isAsciiBlank).length ≤ w.length) :
    (w ++ d :: r').takeWhile Text.isAsciiBlank = (w ++ d :: r).takeWhile Text.isAsciiBlank := by
  induction w with
  | nil => simp [hd] at h
  | cons c w ih =>
      rw [List.cons_append, List.takeWhile_cons] at h
      rw [List.cons_append, List.cons_append, List.takeWhile_cons, List.takeWhile_cons]
      split
      · next hc =>
          rw [if_pos hc] at h
          rw [ih (Nat.le_of_succ_le_succ h)]
      · rfl

theorem newlineLength_eq_of_le (h : newlineLength (w ++ d :: r) ≤ w.length) :
    newlineLength (w ++ d :: r') = newlineLength (w ++ d :: r) := by
  cases w with
  | nil =>
      have hreturn : d ≠ '\r' := by
        rintro rfl
        rw [List.nil_append, newlineLength_cons] at h
        split at h
        · exact absurd h (by decide)
        · exact absurd h (by decide)
      simp only [List.nil_append, newlineLength_cons, hreturn, false_and]
  | cons a w =>
      rw [List.cons_append, List.cons_append, newlineLength_cons, newlineLength_cons,
        head?_append w d r r']

theorem escapeEndLength_eq_of_le (h : escapeEndLength (w ++ d :: r) ≤ w.length) :
    escapeEndLength (w ++ d :: r') = escapeEndLength (w ++ d :: r) := by
  have hline := newlineLength_eq_of_le hd r' (w := w) (r := r)
  cases w with
  | nil =>
      rw [List.nil_append, escapeEndLength_cons] at h
      rw [List.nil_append, List.nil_append, escapeEndLength_cons, escapeEndLength_cons]
      split
      · rfl
      · next hc =>
          rw [if_neg hc] at h
          exact hline h
  | cons c w =>
      rw [List.cons_append, escapeEndLength_cons] at h
      rw [List.cons_append, List.cons_append, escapeEndLength_cons, escapeEndLength_cons]
      split
      · rfl
      · next hc =>
          rw [if_neg hc] at h
          exact hline h

theorem isSome_hexDigit?_of_isAsciiBlank : (Decimal.hexDigit? d).isSome = false := by
  have hmem : d ∈ [' ', '\t', '\n', '\x0c', '\r'] := by
    simpa [Text.isAsciiBlank, or_assoc] using hd
  have hnone :
      [' ', '\t', '\n', '\x0c', '\r'].any (fun c => (Decimal.hexDigit? c).isSome) = false := by
    decide
  exact Bool.eq_false_iff.2 (List.any_eq_false.1 hnone d hmem)

theorem escape_eq_of_le (h : (escape (w ++ d :: r)).2 ≤ w.length) :
    escape (w ++ d :: r') = escape (w ++ d :: r) := by
  have hlen : (hexDigits w).length ≤ w.length :=
    ((List.takeWhile_sublist _).trans (List.take_sublist 6 w)).length_le
  have hhex := isSome_hexDigit?_of_isAsciiBlank hd
  have hdigits := hexDigits_append hhex (w := w) (r := r)
  have hdigits' := hexDigits_append hhex (w := w) (r := r')
  cases w with
  | nil =>
      rw [List.nil_append] at hdigits h
      rw [escape_cons, hdigits] at h
      exact absurd h (Nat.not_succ_le_zero _)
  | cons c w =>
      rw [List.cons_append] at hdigits hdigits' h
      rw [List.cons_append, List.cons_append, escape_cons, escape_cons, hdigits, hdigits']
      rw [escape_cons, hdigits] at h
      generalize hexDigits (c :: w) = digits at hlen h ⊢
      split
      · rfl
      · next hne =>
          rw [if_neg hne, ← List.cons_append, List.drop_append_of_le_length hlen] at h
          rw [← List.cons_append, ← List.cons_append, List.drop_append_of_le_length hlen,
            List.drop_append_of_le_length hlen, escapeEndLength_eq_of_le hd r']
          rw [List.length_drop]
          dsimp only at h
          omega

theorem name_eq_of_le {k : Nat} (h : (name k (w ++ d :: r)).2 ≤ w.length) :
    name k (w ++ d :: r') = name k (w ++ d :: r) := by
  induction w generalizing k with
  | nil =>
      cases k with
      | zero =>
          have hne : d ≠ '\\' := ne_of_isAsciiBlank hd (by decide)
          simp [name, hne, isNameChar_of_isStop (isStop_of_isAsciiBlank hd)]
      | succ k => exact absurd h (Nat.not_succ_le_zero _)
  | cons c w ih =>
      cases k with
      | succ k =>
          rw [List.cons_append, name] at h
          rw [List.cons_append, List.cons_append, name, name, ih (Nat.le_of_succ_le_succ h)]
      | zero =>
          have hmin := min_le_name (escape (w ++ d :: r)).2 (w ++ d :: r)
          rw [List.length_append, List.length_cons] at hmin
          rw [List.cons_append, name] at h
          rw [List.cons_append, List.cons_append, name, name, atNewline_append w d r r']
          split
          · next hc =>
              rw [if_pos hc] at h
              split
              · rfl
              · next hline =>
                  rw [if_neg hline] at h
                  have hle : (name (escape (w ++ d :: r)).2 (w ++ d :: r)).2 ≤ w.length :=
                    Nat.le_of_succ_le_succ h
                  rw [escape_eq_of_le (r := r) hd r' (by omega), ih hle]
          · next hc =>
              rw [if_neg hc] at h
              split
              · next hname =>
                  rw [if_pos hname] at h
                  rw [ih (Nat.le_of_succ_le_succ h)]
              · rfl

theorem stringLength_eq_of_le {q : Char} {k : Nat} (hq : Text.isAsciiBlank q = false)
    (h : stringLength q k (w ++ d :: r) ≤ w.length) :
    stringLength q k (w ++ d :: r') = stringLength q k (w ++ d :: r) := by
  have hquote : d ≠ q := fun hdq => Bool.noConfusion (hd.symm.trans (hdq ▸ hq))
  have hne : d ≠ '\\' := ne_of_isAsciiBlank hd (by decide)
  induction w generalizing k with
  | nil =>
      cases k with
      | succ k => exact absurd h (Nat.not_succ_le_zero _)
      | zero =>
          rw [List.nil_append, stringLength] at h
          rw [List.nil_append, List.nil_append, stringLength, stringLength]
          refine ite_eq_of_le (fun hc => absurd hc hquote) (fun _ => ?_) h
          refine ite_eq_of_le (fun _ _ => rfl) fun _ => ?_
          refine ite_eq_of_le (fun hc => absurd hc hne) fun _ hle => ?_
          exact absurd hle (Nat.not_succ_le_zero _)
  | cons c w ih =>
      cases k with
      | succ k =>
          rw [List.cons_append, stringLength] at h
          rw [List.cons_append, List.cons_append, stringLength, stringLength,
            ih (Nat.le_of_succ_le_succ h)]
      | zero =>
          rw [List.cons_append, stringLength] at h
          rw [List.cons_append, List.cons_append, stringLength, stringLength,
            atNewline_append w d r r']
          refine ite_eq_of_le (fun _ _ => rfl) (fun _ => ?_) h
          refine ite_eq_of_le (fun _ _ => rfl) fun _ => ?_
          refine ite_eq_of_le (fun _ hle => ?_)
            fun _ hle => congrArg (· + 1) (ih (Nat.le_of_succ_le_succ hle))
          have hle := Nat.le_of_succ_le_succ hle
          have hmin := (min_le_stringLength _ _ _).trans hle
          rw [List.length_append, List.length_cons] at hmin
          dsimp only
          split
          · next hnew =>
              rw [if_pos hnew] at hle hmin
              rw [newlineLength_eq_of_le (r := r) hd r' (by omega), ih hle]
          · next hnew =>
              rw [if_neg hnew] at hle hmin
              rw [escape_eq_of_le (r := r) hd r' (by omega), ih hle]

theorem commentLength_eq_of_le (h : commentLength (w ++ d :: r) ≤ w.length) :
    commentLength (w ++ d :: r') = commentLength (w ++ d :: r) := by
  have hslash : d ≠ '/' := by
    rintro rfl
    exact absurd hd (by decide)
  induction w with
  | nil =>
      have hstar : d ≠ '*' := ne_of_isAsciiBlank hd (by decide)
      rw [List.nil_append, commentLength_cons, if_neg (fun hc => hstar hc.1)] at h
      exact absurd h (Nat.not_succ_le_zero _)
  | cons c w ih =>
      rw [List.cons_append, commentLength_cons] at h
      rw [List.cons_append, List.cons_append, commentLength_cons, commentLength_cons,
        head?_append w d r r']
      split
      · rfl
      · next hc =>
          rw [if_neg hc] at h
          rw [ih (Nat.le_of_succ_le_succ h)]

theorem faultyAddressLength_eq_of_le (h : faultyAddressLength (w ++ d :: r) ≤ w.length) :
    faultyAddressLength (w ++ d :: r') = faultyAddressLength (w ++ d :: r) := by
  have hround : d ≠ ')' := ne_of_isAsciiBlank hd (by decide)
  have hescape : d ≠ '\\' := ne_of_isAsciiBlank hd (by decide)
  have hlong : ∀ cs, faultyAddressLength (d :: cs) = faultyAddressLength cs + 1 := by
    intro cs
    rw [faultyAddressLength_cons, if_neg hround, if_neg (fun hc => hescape hc.1)]
  generalize hn : w.length = n
  induction n using Nat.strongRecOn generalizing w with
  | ind n ih =>
      cases w with
      | nil =>
          rw [List.nil_append, hlong] at h
          exact absurd h (Nat.not_succ_le_zero _)
      | cons c w =>
          rw [List.length_cons] at hn
          rw [List.cons_append, faultyAddressLength_cons] at h
          rw [List.cons_append, List.cons_append, faultyAddressLength_cons,
            faultyAddressLength_cons, head?_append w d r r']
          split
          · rfl
          · next hc =>
              rw [if_neg hc] at h
              split
              · next hpair =>
                  rw [if_pos hpair] at h
                  cases w with
                  | nil =>
                      rcases hpair.2 with hc | hc
                      · exact absurd (Option.some.inj hc) hround
                      · exact absurd (Option.some.inj hc) hescape
                  | cons e w =>
                      rw [List.length_cons] at hn
                      have hle : faultyAddressLength (w ++ d :: r) ≤ w.length :=
                        Nat.le_of_succ_le_succ (Nat.le_of_succ_le_succ h)
                      exact congrArg (· + 2) (ih w.length (by omega) hle rfl)
              · next hpair =>
                  rw [if_neg hpair] at h
                  rw [ih w.length (by omega) (Nat.le_of_succ_le_succ h) rfl]

theorem addressEndLength_eq_of_le (h : addressEndLength (w ++ d :: r) ≤ w.length) :
    addressEndLength (w ++ d :: r') = addressEndLength (w ++ d :: r) := by
  have hround : d ≠ ')' := ne_of_isAsciiBlank hd (by decide)
  induction w with
  | nil =>
      rw [List.nil_append, addressEndLength, if_neg hround, if_pos hd] at h
      exact absurd h (Nat.not_succ_le_zero _)
  | cons c w ih =>
      rw [List.cons_append, addressEndLength] at h
      rw [List.cons_append, List.cons_append, addressEndLength, addressEndLength]
      refine ite_eq_of_le (fun _ _ => rfl) (fun _ => ?_) h
      refine ite_eq_of_le (fun _ hle => ?_) fun _ hle => ?_
      · exact congrArg (· + 1) (ih (Nat.le_of_succ_le_succ hle))
      · exact congrArg (· + 1) (faultyAddressLength_eq_of_le hd r' (Nat.le_of_succ_le_succ hle))

theorem addressLength_eq_of_le {k : Nat} (h : addressLength k (w ++ d :: r) ≤ w.length) :
    addressLength k (w ++ d :: r') = addressLength k (w ++ d :: r) := by
  have hround : d ≠ ')' := ne_of_isAsciiBlank hd (by decide)
  have hfaulty : ∀ {w : List Char}, faultyAddressLength (w ++ d :: r) + 1 ≤ w.length + 1 →
      faultyAddressLength (w ++ d :: r') + 1 = faultyAddressLength (w ++ d :: r) + 1 :=
    fun hle => congrArg (· + 1) (faultyAddressLength_eq_of_le hd r' (Nat.le_of_succ_le_succ hle))
  induction w generalizing k with
  | nil =>
      cases k with
      | zero =>
          rw [List.nil_append, addressLength, if_neg hround, if_pos hd] at h
          exact absurd h (Nat.not_succ_le_zero _)
      | succ k => exact absurd h (Nat.not_succ_le_zero _)
  | cons c w ih =>
      cases k with
      | succ k =>
          rw [List.cons_append, addressLength] at h
          rw [List.cons_append, List.cons_append, addressLength, addressLength,
            ih (Nat.le_of_succ_le_succ h)]
      | zero =>
          rw [List.cons_append, addressLength] at h
          rw [List.cons_append, List.cons_append, addressLength, addressLength,
            atNewline_append w d r r']
          refine ite_eq_of_le (fun _ _ => rfl) (fun _ => ?_) h
          refine ite_eq_of_le (fun _ hle => ?_) fun _ => ?_
          · exact congrArg (· + 1) (addressEndLength_eq_of_le hd r' (Nat.le_of_succ_le_succ hle))
          refine ite_eq_of_le (fun _ hle => hfaulty hle) fun _ => ?_
          refine ite_eq_of_le (fun _ => ?_)
            fun _ hle => congrArg (· + 1) (ih (Nat.le_of_succ_le_succ hle))
          refine ite_eq_of_le (fun _ hle => hfaulty hle) fun _ hle => ?_
          have hle := Nat.le_of_succ_le_succ hle
          have hmin := (min_le_addressLength _ _).trans hle
          rw [List.length_append, List.length_cons] at hmin
          rw [escape_eq_of_le (r := r) hd r' (by omega), ih hle]

theorem address?_eq_of_le (hle : ∀ k ∈ address? (w ++ d :: r), k ≤ w.length)
    (hnone : address? (w ++ d :: r) = none → ∃ e ∈ w, Text.isAsciiBlank e = false) :
    address? (w ++ d :: r') = address? (w ++ d :: r) := by
  by_cases hw : ∃ e ∈ w, Text.isAsciiBlank e = false
  · obtain ⟨b, c, v, rfl, hb, hc⟩ := exists_blanks_append hw
    rw [List.append_assoc, List.cons_append, address?_blanks hb hc] at hle
    rw [List.append_assoc, List.append_assoc, List.cons_append, List.cons_append,
      address?_blanks hb hc, address?_blanks hb hc]
    split
    · rfl
    · next hquote =>
        rw [if_neg hquote] at hle
        have hlen := hle _ rfl
        rw [List.length_append] at hlen
        have haddress := addressLength_eq_of_le hd r' (k := 0) (w := c :: v) (r := r) (by
          rw [List.cons_append]
          omega)
        rw [List.cons_append, List.cons_append] at haddress
        rw [haddress]
  · have hall : ∀ e ∈ w, Text.isAsciiBlank e = true := by
      intro e he
      by_contra hblank
      exact hw ⟨e, he, Bool.eq_false_iff.2 hblank⟩
    cases hk : address? (w ++ d :: r) with
    | none => exact absurd (hnone hk) hw
    | some k =>
        have hlow := blanks_le_address? hk
        have hhigh := hle k hk
        rw [List.takeWhile_append_of_pos hall, List.takeWhile_cons_of_pos hd, List.length_append,
          List.length_cons] at hlow
        omega

theorem atName_append : atName (w ++ d :: r') = atName (w ++ d :: r) := by
  cases w with
  | nil =>
      have hhyphen : d ≠ '-' := ne_of_isAsciiBlank hd (by decide)
      have hescape : d ≠ '\\' := ne_of_isAsciiBlank hd (by decide)
      simp only [List.nil_append, atName_cons, hhyphen, hescape, if_false]
  | cons c w =>
      rw [List.cons_append, List.cons_append, atName_cons, atName_cons, head?_append w d r r',
        atNewline_append w d r r']

theorem unitLength_eq_of_le (h : unitLength (w ++ d :: r) ≤ w.length) :
    unitLength (w ++ d :: r') = unitLength (w ++ d :: r) := by
  rw [unitLength_eq] at h
  rw [unitLength_eq, unitLength_eq, head?_append w d r r', atName_append hd]
  refine ite_eq_of_le (fun _ _ => rfl) (fun _ => ?_) h
  refine ite_eq_of_le (fun _ hle => ?_) fun _ _ => rfl
  exact congrArg Prod.snd (name_eq_of_le hd r' hle)

theorem numberLength_eq_of_le (h : numberLength (w ++ d :: r) ≤ w.length) :
    numberLength (w ++ d :: r') = numberLength (w ++ d :: r) := by
  have hstop := isStop_of_isAsciiBlank hd
  have hreal := realLength_le w
  rw [numberLength_eq, realLength_stop hstop, List.drop_append_of_le_length hreal] at h
  rw [numberLength_eq, numberLength_eq, realLength_stop hstop, realLength_stop hstop,
    List.drop_append_of_le_length hreal, List.drop_append_of_le_length hreal,
    unitLength_eq_of_le hd r']
  rw [List.length_drop]
  omega

theorem atNumber_append : atNumber (w ++ d :: r') = atNumber (w ++ d :: r) := by
  have hstop := isStop_of_isAsciiBlank hd
  cases w with
  | nil =>
      have hpoint : d ≠ '.' := ne_of_isAsciiBlank hd (by decide)
      simp only [List.nil_append, atNumber_cons, hpoint, if_false]
  | cons c w =>
      simp only [List.cons_append, atNumber_cons, atDigit_stop hstop]

end

/-! ### Tokens -/

/-- Two tokens with their lengths agree, if the first one ends before the blank that follows `w`. An
opening round bracket must be followed by something else in `w`. -/
def Agrees (w : List Char) (x y : Token × Nat) : Prop :=
  x.2 ≤ w.length + 1 →
    (x.1 = .opening .round → ∃ e ∈ w.drop (x.2 - 1), Text.isAsciiBlank e = false) → y = x

theorem Agrees.refl (w : List Char) (x : Token × Nat) : Agrees w x x :=
  fun _ _ => rfl

theorem Agrees.of_le {t : Token} {n m : Nat} (h : n ≤ w.length + 1 → m = n) :
    Agrees w (t, n) (t, m) :=
  fun hle _ => congrArg (Prod.mk t) (h hle)

theorem Agrees.succ {t : Token} {n m : Nat} (h : n ≤ w.length → m = n) :
    Agrees w (t, 1 + n) (t, 1 + m) :=
  Agrees.of_le fun hle => congrArg (1 + ·) (h (by omega))

theorem Agrees.ite {C C' : Prop} [Decidable C] [Decidable C'] {a a' b b' : Token × Nat}
    (hC : C' ↔ C) (ha : C → Agrees w a a') (hb : ¬C → Agrees w b b') :
    Agrees w (if C then a else b) (if C' then a' else b') := by
  by_cases hc : C
  · rw [if_pos hc, if_pos (hC.2 hc)]
    exact ha hc
  · rw [if_neg hc, if_neg (mt hC.1 hc)]
    exact hb hc

section

variable (hd : Text.isAsciiBlank d = true) (r r' : List Char)
include hd

theorem nameToken_agrees (c : Char) :
    Agrees w (nameToken (c :: (w ++ d :: r))) (nameToken (c :: (w ++ d :: r'))) := by
  intro hle hround
  have hn : (name 0 (c :: w ++ d :: r)).2 ≤ (c :: w).length := by
    rcases nameToken_cases (c :: (w ++ d :: r)) with h | ⟨-, h | ⟨k, h⟩⟩
    · rwa [h] at hle
    · rw [h] at hle
      exact Nat.le_of_succ_le hle
    · rw [h] at hle
      exact (Nat.le_add_right _ 1).trans ((Nat.le_add_right _ k).trans hle)
  have hname := name_eq_of_le hd r' hn
  unfold nameToken at hle hround ⊢
  rw [← List.cons_append, ← List.cons_append, hname]
  rw [← List.cons_append] at hle hround
  generalize name 0 (c :: w ++ d :: r) = p at hn hle hround ⊢
  obtain ⟨value, n⟩ := p
  dsimp only at hn hle hround ⊢
  rw [List.drop_append_of_le_length hn] at hle hround
  rw [List.drop_append_of_le_length hn, List.drop_append_of_le_length hn]
  by_cases hopen : ∃ v, (c :: w).drop n = '(' :: v
  · obtain ⟨v, hv⟩ := hopen
    have hdrop : w.drop n = v := by
      rw [← List.drop_succ_cons (a := c), ← List.drop_drop, hv]
      rfl
    rw [hv] at hle hround ⊢
    simp only [List.cons_append] at hle hround ⊢
    split
    · next hurl =>
        rw [if_pos hurl] at hle hround
        have haddress : address? (v ++ d :: r') = address? (v ++ d :: r) := by
          refine address?_eq_of_le hd r' (fun k hk => ?_) fun hk => ?_
          · rw [Option.mem_def.1 hk] at hle
            have hlen := congrArg List.length hdrop
            rw [List.length_drop] at hlen
            dsimp only at hle
            omega
          · rw [hk] at hround
            exact hdrop ▸ hround rfl
        rw [haddress]
    · rfl
  · have hother : ∀ r rest, (c :: w).drop n ++ d :: r ≠ '(' :: rest := by
      intro r rest h
      obtain ⟨v, hv, -⟩ := exists_of_append_eq_cons h (ne_of_isAsciiBlank hd (by decide))
      exact hopen ⟨v, hv⟩
    split
    · next heq => exact absurd heq (hother _ _)
    · split
      · next heq => exact absurd heq (hother _ _)
      · rfl

/-- A token that ends before a blank is the same whatever follows the blank. -/
theorem scan_agrees (c : Char) : Agrees w (scan c (w ++ d :: r)) (scan c (w ++ d :: r')) := by
  have hword : atName (c :: (w ++ d :: r')) = atName (c :: (w ++ d :: r)) :=
    atName_append hd r' (w := c :: w) (r := r)
  have hpart : atName (w ++ d :: r') = atName (w ++ d :: r) := atName_append hd r'
  have hdigit : atDigit (w ++ d :: r') = atDigit (w ++ d :: r) := by
    rw [atDigit_stop (isStop_of_isAsciiBlank hd), atDigit_stop (isStop_of_isAsciiBlank hd)]
  have hhead := head?_append w d r r'
  have hname : (name 0 (w ++ d :: r)).2 ≤ w.length → name 0 (w ++ d :: r') = name 0 (w ++ d :: r) :=
    name_eq_of_le hd r'
  have hne : ∀ {e : Char}, isStop e = false → d ≠ e := ne_of_isAsciiBlank hd
  have hstart : d ∉ ['!', '-', '-'] := by simp [hne (e := '!') rfl, hne (e := '-') rfl]
  have hend : d ∉ ['-', '>'] := by simp [hne (e := '-') rfl, hne (e := '>') rfl]
  unfold scan
  refine Agrees.ite Iff.rfl (fun _ => Agrees.succ fun hle => ?_) fun _ => ?_
  · rw [takeWhile_blank_eq_of_le hd r' hle]
  refine Agrees.ite Iff.rfl (fun hc => Agrees.succ fun hle => ?_) fun _ => ?_
  · refine stringLength_eq_of_le hd r' ?_ hle
    rcases hc with rfl | rfl <;> decide
  refine Agrees.ite Iff.rfl (fun _ => Agrees.refl _ _) fun _ => ?_
  refine Agrees.ite Iff.rfl (fun _ => Agrees.refl _ _) fun _ => ?_
  refine Agrees.ite Iff.rfl (fun _ => Agrees.refl _ _) fun _ => ?_
  refine Agrees.ite Iff.rfl (fun _ => Agrees.refl _ _) fun _ => ?_
  refine Agrees.ite Iff.rfl (fun _ => Agrees.refl _ _) fun _ => ?_
  refine Agrees.ite Iff.rfl (fun _ => Agrees.refl _ _) fun _ => ?_
  refine Agrees.ite Iff.rfl (fun _ => Agrees.refl _ _) fun _ => ?_
  refine Agrees.ite Iff.rfl (fun _ => Agrees.refl _ _) fun _ => ?_
  refine Agrees.ite Iff.rfl (fun _ => ?_) fun _ => ?_
  · refine Agrees.ite (by rw [hpart, hdigit, hhead]) (fun _ => Agrees.succ fun hle => ?_)
      fun _ => Agrees.refl _ _
    rw [hname hle]
  refine Agrees.ite Iff.rfl (fun _ => ?_) fun _ => ?_
  · refine Agrees.ite (by rw [hpart]) (fun _ => ?_) fun _ => Agrees.refl _ _
    intro hle _
    rw [hname (by dsimp only at hle; omega)]
  refine Agrees.ite (by rw [hhead]) (fun hc => Agrees.of_le fun hle => ?_) fun _ => ?_
  · cases w with
    | nil => exact absurd (Option.some.inj hc.2) (ne_of_isAsciiBlank hd (by decide))
    | cons e w =>
        have hle : commentLength (w ++ d :: r) ≤ w.length := by
          simp only [List.cons_append, List.drop_succ_cons, List.drop_zero, List.length_cons] at hle
          omega
        exact congrArg (2 + ·) (commentLength_eq_of_le hd r' hle)
  refine Agrees.ite (and_congr Iff.rfl (take_eq_iff hstart r')) (fun _ => Agrees.refl _ _) fun _ => ?_
  refine Agrees.ite (by rw [hdigit]) (fun _ => Agrees.of_le fun hle => ?_) fun _ => ?_
  · exact numberLength_eq_of_le hd r' (w := c :: w) hle
  refine Agrees.ite (by rw [atNumber_append hd]) (fun _ => Agrees.succ fun hle => ?_) fun _ => ?_
  · exact numberLength_eq_of_le hd r' hle
  refine Agrees.ite (and_congr Iff.rfl (take_eq_iff hend r')) (fun _ => Agrees.refl _ _) fun _ => ?_
  exact Agrees.ite (by rw [hword]) (fun _ => nameToken_agrees hd r r' c) fun _ => Agrees.refl _ _

end

end Token

/-! ### Lexemes -/

variable {d : Char}

theorem lexemes_text_eq_of_append {cs : List Char} {front back : List Lexeme}
    (h : lexemes cs = front ++ back) : lexemes (textOf back) = back := by
  induction front generalizing cs with
  | nil =>
      rw [List.nil_append] at h
      rw [← h, lexemes_text]
  | cons l front ih =>
      cases cs with
      | nil => exact absurd h.symm (List.cons_ne_nil _ _)
      | cons c cs =>
          rw [lexemes_cons, List.cons_append] at h
          exact ih (List.cons.inj h).2

/-- The first of some lexemes in front of a text: a token, and the rest of its text. -/
theorem exists_of_lexemes_eq_cons {l : Lexeme} {front : List Lexeme} {r : List Char}
    (h : lexemes (textOf (l :: front) ++ d :: r) = l :: front ++ lexemes (d :: r)) :
    ∃ c u, textOf (l :: front) = c :: (u ++ textOf front) ∧
      l.token = (Token.scan c (u ++ textOf front ++ d :: r)).1 ∧ l.text = c :: u ∧
      (Token.scan c (u ++ textOf front ++ d :: r)).2 - 1 = u.length ∧
      lexemes (textOf front ++ d :: r) = front ++ lexemes (d :: r) := by
  have htext : textOf (l :: front) = l.text ++ textOf front := rfl
  obtain ⟨c, u, hu⟩ : ∃ c u, l.text = c :: u := by
    generalize textOf (l :: front) ++ d :: r = cs at h
    cases cs with
    | nil => exact absurd h.symm (List.cons_ne_nil _ _)
    | cons c cs =>
        rw [lexemes_cons, List.cons_append] at h
        exact ⟨c, _, congrArg Lexeme.text (List.cons.inj h).1.symm⟩
  rw [hu] at htext
  refine ⟨c, u, htext, ?_⟩
  rw [htext, List.cons_append, List.cons_append, lexemes_cons, List.cons_append] at h
  obtain ⟨hl, hfront⟩ := List.cons.inj h
  have htake := congrArg Lexeme.text hl
  rw [hu] at htake
  have hlen := congrArg List.length (List.cons.inj htake).2
  rw [List.length_take, List.length_append, List.length_append, List.length_cons] at hlen
  have hscan : (Token.scan c (u ++ textOf front ++ d :: r)).2 - 1 = u.length := by omega
  refine ⟨congrArg Lexeme.token hl.symm, hu, hscan, ?_⟩
  rwa [hscan, List.append_assoc, List.drop_left] at hfront

theorem exists_not_blank_of_lexemes (hd : Text.isAsciiBlank d = true) {front : List Lexeme}
    {r : List Char} (h : lexemes (textOf front ++ d :: r) = front ++ lexemes (d :: r))
    (hne : front ≠ []) : ∃ e ∈ textOf front, Text.isAsciiBlank e = false := by
  cases front with
  | nil => exact absurd rfl hne
  | cons l front =>
      obtain ⟨c, u, htext, -, -, hscan, -⟩ := exists_of_lexemes_eq_cons h
      rw [htext]
      by_contra hblank
      have hall : ∀ e ∈ c :: (u ++ textOf front), Text.isAsciiBlank e = true := by
        intro e he
        by_contra hc
        exact hblank ⟨e, he, Bool.eq_false_iff.2 hc⟩
      obtain ⟨hc, hrest⟩ := List.forall_mem_cons.1 hall
      rw [Token.scan, if_pos hc, List.takeWhile_append_of_pos hrest, List.takeWhile_cons_of_pos hd,
        List.length_append, List.length_append, List.length_cons] at hscan
      omega

/-- The lexemes in front of a blank do not change with what follows the blank, if the last of them is
no opening round bracket. -/
theorem lexemes_append_blank (hd : Text.isAsciiBlank d = true) {front : List Lexeme} {r : List Char}
    (h : lexemes (textOf front ++ d :: r) = front ++ lexemes (d :: r))
    (hlast : ∀ ls l, front = ls ++ [l] → l.token ≠ .opening .round) (r' : List Char) :
    lexemes (textOf front ++ d :: r') = front ++ lexemes (d :: r') := by
  induction front with
  | nil => rfl
  | cons l front ih =>
      obtain ⟨c, u, htext, htoken, hl, hscan, hfront⟩ := exists_of_lexemes_eq_cons h
      have hmore := ih hfront fun ls m hls => hlast (l :: ls) m (by rw [hls, List.cons_append])
      have hround : (Token.scan c (u ++ textOf front ++ d :: r)).1 = .opening .round →
          ∃ e ∈ (u ++ textOf front).drop ((Token.scan c (u ++ textOf front ++ d :: r)).2 - 1),
            Text.isAsciiBlank e = false := by
        intro hopen
        rw [hscan, List.drop_left]
        refine exists_not_blank_of_lexemes hd hfront ?_
        rintro rfl
        exact hlast [] l rfl (htoken.trans hopen)
      have hagrees : Token.scan c (u ++ textOf front ++ d :: r') =
          Token.scan c (u ++ textOf front ++ d :: r) := by
        refine Token.scan_agrees hd r r' c ?_ hround
        rw [List.length_append]
        omega
      rw [htext, List.cons_append, lexemes_cons, hagrees, hscan, ← htoken, List.append_assoc,
        List.take_left, List.drop_left, hmore, ← hl, List.cons_append]

end Sheet
end Montage
