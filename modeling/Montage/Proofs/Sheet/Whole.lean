import Montage.Proofs.Sheet.Lookahead

/-!
# Whole texts

A text that leaves nothing open is read by itself, whatever is written behind it.

**Input.** A text in which every comment, string and address is closed and every bracket has its
partner, and which does not end in a backslash; a mark behind it.

**Algorithm.** A name, a number or a blank ends before a mark. An escape stays in the text, since a
character follows its backslash. A comment, a string or an address either ends inside the text, or it is
the last token; then it is closed, so that the reader is done with it at the end of the text.

**Results.**
* `Token.scan_settled`: a token is the same in front of a mark as at the end of the text.
* `lexemes_append_mark`: so are all lexemes of a whole text.
-/

namespace Montage
namespace Sheet

/-- What stands behind the name of an address and its round bracket. -/
def addressBody? (text : List Char) : Option (List Char) :=
  match text.drop (Token.name 0 text).2 with
  | '(' :: body => if Text.lower (Token.name 0 text).1 = "url".toList then some body else none
  | _ => none

open Token in
/-- Whether a comment, a string or an address is closed: its end mark, written behind it once more, is
not read as a part of it. -/
def Lexeme.isClosed (l : Lexeme) : Bool :=
  match l.token, l.text with
  | .comment, _ :: _ :: body => commentLength (body ++ ['*', '/']) == commentLength body
  | .other, c :: cs =>
      if c = '"' ∨ c = '\'' then stringLength c 0 (cs ++ [c]) == stringLength c 0 cs
      else
        match addressBody? (c :: cs) with
        | some body => address? (body ++ [')']) == address? body
        | none => true
  | _, _ => true

/-- Whether every bracket has its partner: a closing bracket fits the innermost open one, and none is
left open. -/
def isBalanced : List Bracket → List Lexeme → Bool
  | open?, [] => open?.isEmpty
  | open?, l :: ls =>
      match l.token with
      | .opening b => isBalanced (b :: open?) ls
      | .closing b =>
          match open? with
          | o :: rest => o == b && isBalanced rest ls
          | [] => false
      | _ => isBalanced open? ls

/-- A text that leaves nothing open: its comments, strings, addresses and brackets are closed, and it
does not end in a backslash. -/
structure IsWhole (cs : List Char) : Prop where
  closed : ∀ l ∈ lexemes cs, l.isClosed = true
  balanced : isBalanced [] (lexemes cs) = true
  unescaped : cs.getLast? ≠ some '\\'

instance (cs : List Char) : Decidable (IsWhole cs) :=
  decidable_of_iff ((∀ l ∈ lexemes cs, l.isClosed = true) ∧ isBalanced [] (lexemes cs) = true ∧
      cs.getLast? ≠ some '\\')
    ⟨fun h => ⟨h.1, h.2.1, h.2.2⟩, fun h => ⟨h.closed, h.balanced, h.unescaped⟩⟩

namespace Token

variable {q d : Char} {w : List Char}

/-! ### Escapes stay in a text -/

theorem newlineLength_le (cs : List Char) : newlineLength cs ≤ cs.length := by
  cases cs with
  | nil => exact Nat.le_refl _
  | cons c cs =>
      rw [newlineLength_cons, List.length_cons]
      split
      · next h =>
          obtain ⟨cs, rfl⟩ := List.head?_eq_some_iff.1 h.2
          rw [List.length_cons]
          omega
      · split <;> omega

theorem escapeEndLength_le (cs : List Char) : escapeEndLength cs ≤ cs.length := by
  cases cs with
  | nil => exact Nat.le_refl _
  | cons c cs =>
      rw [escapeEndLength_cons]
      split
      · exact Nat.succ_le_succ (Nat.zero_le _)
      · exact newlineLength_le _

theorem length_hexDigits_le (cs : List Char) : (hexDigits cs).length ≤ cs.length :=
  ((List.takeWhile_sublist _).trans (List.take_sublist 6 cs)).length_le

theorem escape_le (cs : List Char) : (escape cs).2 ≤ cs.length := by
  cases cs with
  | nil => exact Nat.le_refl _
  | cons c cs =>
      have hdigits := length_hexDigits_le (c :: cs)
      have hend := escapeEndLength_le ((c :: cs).drop (hexDigits (c :: cs)).length)
      rw [escape_cons]
      split
      · exact Nat.succ_le_succ (Nat.zero_le _)
      · rw [List.length_drop] at hend
        dsimp only
        omega

/-- The characters that an escape may take with it: hexadecimal digits and blanks. -/
def isFiller (c : Char) : Bool :=
  (Decimal.hexDigit? c).isSome || Text.isAsciiBlank c

section

variable (hd : isFiller d = false) (w : List Char) (rest : List Char)
include hd

theorem ne_of_isFiller {c : Char} (hc : isFiller c = true) : d ≠ c :=
  fun h => Bool.noConfusion ((h ▸ hc).symm.trans hd)

theorem isNewline_of_isFiller : isNewline d = false := by
  have hfeed : d ≠ '\n' := ne_of_isFiller hd (by decide)
  have hreturn : d ≠ '\r' := ne_of_isFiller hd (by decide)
  have hform : d ≠ '\x0c' := ne_of_isFiller hd (by decide)
  simp [isNewline, hfeed, hreturn, hform]

theorem atNewline_stop : atNewline (w ++ d :: rest) = atNewline w := by
  cases w with
  | nil => exact isNewline_of_isFiller hd
  | cons c w => rfl

theorem newlineLength_stop : newlineLength (w ++ d :: rest) = newlineLength w := by
  cases w with
  | nil =>
      have hreturn : ¬(d = '\r' ∧ rest.head? = some '\n') :=
        fun h => ne_of_isFiller hd (by decide) h.1
      rw [List.nil_append, newlineLength_cons, if_neg hreturn, isNewline_of_isFiller hd]
      rfl
  | cons c w =>
      have hfeed : (w ++ d :: rest).head? = some '\n' ↔ w.head? = some '\n' := by
        cases w with
        | nil =>
            have hne : d ≠ '\n' := ne_of_isFiller hd (by decide)
            simp [hne]
        | cons e w => rfl
      rw [List.cons_append, newlineLength_cons, newlineLength_cons]
      simp only [hfeed]

theorem escapeEndLength_stop : escapeEndLength (w ++ d :: rest) = escapeEndLength w := by
  cases w with
  | nil =>
      have hblank : ¬(d = ' ' ∨ d = '\t') :=
        not_or.2 ⟨ne_of_isFiller hd (by decide), ne_of_isFiller hd (by decide)⟩
      rw [List.nil_append, escapeEndLength_cons, if_neg hblank]
      exact newlineLength_stop hd [] rest
  | cons c w =>
      have hline := newlineLength_stop hd (c :: w) rest
      rw [List.cons_append] at hline
      rw [List.cons_append, escapeEndLength_cons, escapeEndLength_cons, hline]

variable {w}

/-- An escape with a character behind its backslash ends before what is no filler. -/
theorem escape_stop (hne : w ≠ []) : escape (w ++ d :: rest) = escape w := by
  obtain ⟨c, w, rfl⟩ := List.exists_cons_of_ne_nil hne
  have hdigits := hexDigits_append (Bool.or_eq_false_iff.1 hd).1 (w := c :: w) (r := rest)
  have hlen := length_hexDigits_le (c :: w)
  rw [List.cons_append] at hdigits
  rw [List.cons_append, escape_cons, escape_cons, hdigits, ← List.cons_append,
    List.drop_append_of_le_length hlen, escapeEndLength_stop hd]

end

/-! ### What is closed does not see what follows -/

theorem stringLength_singleton (q : Char) (k : Nat) : stringLength q k [q] = 1 := by
  cases k with
  | zero => exact if_pos rfl
  | succ k => cases k <;> rfl

section

variable (hd : isFiller d = false) (rest : List Char)
include hd

/-- A string that ends inside a text, or is closed at its end. -/
theorem stringLength_stop (hq : isFiller q = false) {k : Nat}
    (h : stringLength q k w < w.length ∨ stringLength q k (w ++ [q]) = stringLength q k w) :
    stringLength q k (w ++ d :: rest) = stringLength q k w := by
  induction w generalizing k with
  | nil =>
      rcases h with h | h
      · exact absurd h (Nat.not_lt_zero _)
      · rw [List.nil_append, stringLength_singleton] at h
        cases k <;> exact absurd h Nat.one_ne_zero
  | cons c w ih =>
      cases k with
      | succ k =>
          rw [List.cons_append, stringLength, stringLength] at h
          rw [List.cons_append, stringLength, stringLength,
            ih (h.imp Nat.lt_of_succ_lt_succ Nat.succ.inj)]
      | zero =>
          rw [List.cons_append, stringLength, stringLength] at h
          rw [List.cons_append, stringLength, stringLength]
          by_cases hc : c = q
          · rw [if_pos hc, if_pos hc]
          by_cases hnew : isNewline c = true
          · rw [if_neg hc, if_neg hc, if_pos hnew, if_pos hnew]
          simp only [if_neg hc, if_neg hnew] at h ⊢
          by_cases hback : c = '\\'
          · simp only [if_pos hback] at h ⊢
            -- A backslash at the end would take the end mark with it: the string would not be closed.
            have hne : w ≠ [] := by
              rintro rfl
              rcases h with h | h
              · exact absurd h (Nat.lt_irrefl 1)
              · rw [List.nil_append, stringLength_singleton] at h
                exact absurd h (by simp [stringLength])
            rw [atNewline_stop hq, newlineLength_stop hq, escape_stop hq [] hne] at h
            rw [atNewline_stop hd, newlineLength_stop hd, escape_stop hd rest hne,
              ih (h.imp Nat.lt_of_succ_lt_succ Nat.succ.inj)]
          · simp only [if_neg hback] at h ⊢
            rw [ih (h.imp Nat.lt_of_succ_lt_succ Nat.succ.inj)]

end

theorem commentLength_stop (hd : d ≠ '/') (rest : List Char)
    (h : commentLength w < w.length ∨ commentLength (w ++ ['*', '/']) = commentLength w) :
    commentLength (w ++ d :: rest) = commentLength w := by
  induction w with
  | nil =>
      rcases h with h | h
      · exact absurd h (Nat.not_lt_zero _)
      · exact absurd h (by decide)
  | cons c w ih =>
      have hslash : ∀ {e : Char}, e ≠ '/' → ∀ rest : List Char,
          (w ++ e :: rest).head? = some '/' ↔ w.head? = some '/' := by
        intro e he rest
        cases w <;> simp [he]
      rw [List.cons_append, commentLength_cons, commentLength_cons] at h
      rw [List.cons_append, commentLength_cons, commentLength_cons]
      simp only [hslash hd, hslash (e := '*') (by decide)] at h ⊢
      split
      · rfl
      · next hend =>
          rw [if_neg hend, if_neg hend] at h
          rw [ih (h.imp Nat.lt_of_succ_lt_succ Nat.succ.inj)]

theorem faultyAddressLength_stop (d : Char) (rest : List Char)
    (h : faultyAddressLength w < w.length ∨
      faultyAddressLength (w ++ [')']) = faultyAddressLength w) :
    faultyAddressLength (w ++ d :: rest) = faultyAddressLength w := by
  induction w using faultyAddressLength.induct with
  | case1 cs => rfl
  | case2 cs ih =>
      refine congrArg (· + 2) (ih (h.imp (fun h => ?_) Nat.add_right_cancel))
      exact Nat.lt_of_succ_lt_succ (Nat.lt_of_succ_lt_succ h)
  | case3 cs ih =>
      refine congrArg (· + 2) (ih (h.imp (fun h => ?_) Nat.add_right_cancel))
      exact Nat.lt_of_succ_lt_succ (Nat.lt_of_succ_lt_succ h)
  | case4 c cs hc hclosed hescaped ih =>
      have hne : c ≠ ')' := hc
      have hempty : faultyAddressLength [] = 0 := rfl
      cases cs with
      | nil =>
          -- The address has reached the end of the text, so a bracket behind it is a part of it.
          by_cases hescape : c = '\\' <;>
            simp [faultyAddressLength_cons, hempty, hne, hescape] at h
      | cons e cs =>
          have hstep : ∀ cs,
              faultyAddressLength (c :: e :: cs) = faultyAddressLength (e :: cs) + 1 := by
            intro cs
            rw [faultyAddressLength_cons, if_neg hne, if_neg]
            rintro ⟨rfl, hhead | hhead⟩
            · obtain rfl := Option.some.inj hhead
              exact hclosed _ rfl rfl
            · obtain rfl := Option.some.inj hhead
              exact hescaped _ rfl rfl
          rw [List.cons_append, List.cons_append, hstep, hstep] at h
          rw [List.cons_append, List.cons_append, hstep, hstep]
          exact congrArg (· + 1) (ih (h.imp Nat.lt_of_succ_lt_succ Nat.succ.inj))
  | case5 =>
      rcases h with h | h
      · exact absurd h (Nat.not_lt_zero _)
      · exact absurd h Nat.one_ne_zero

theorem addressEndLength_stop (d : Char) (rest : List Char)
    (h : addressEndLength w < w.length ∨ addressEndLength (w ++ [')']) = addressEndLength w) :
    addressEndLength (w ++ d :: rest) = addressEndLength w := by
  induction w with
  | nil =>
      rcases h with h | h
      · exact absurd h (Nat.not_lt_zero _)
      · exact absurd h Nat.one_ne_zero
  | cons c w ih =>
      rw [List.cons_append, addressEndLength, addressEndLength] at h
      rw [List.cons_append, addressEndLength, addressEndLength]
      split
      · rfl
      · next hc =>
          rw [if_neg hc, if_neg hc] at h
          split
          · next hc =>
              rw [if_pos hc, if_pos hc] at h
              rw [ih (h.imp Nat.lt_of_succ_lt_succ Nat.succ.inj)]
          · next hc =>
              rw [if_neg hc, if_neg hc] at h
              rw [faultyAddressLength_stop d rest
                (h.imp Nat.lt_of_succ_lt_succ Nat.succ.inj)]

theorem addressLength_stop (hd : isFiller d = false) (rest : List Char) {k : Nat}
    (h : addressLength k w < w.length ∨ addressLength k (w ++ [')']) = addressLength k w) :
    addressLength k (w ++ d :: rest) = addressLength k w := by
  have hfaulty : ∀ {w : List Char}, faultyAddressLength w + 1 < w.length + 1 ∨
      faultyAddressLength (w ++ [')']) + 1 = faultyAddressLength w + 1 →
      faultyAddressLength (w ++ d :: rest) + 1 = faultyAddressLength w + 1 :=
    fun h => congrArg (· + 1) (faultyAddressLength_stop d rest
      (h.imp Nat.lt_of_succ_lt_succ Nat.succ.inj))
  have hfill : isFiller ')' = false := by decide
  induction w generalizing k with
  | nil =>
      rcases h with h | h
      · cases k <;> exact absurd h (Nat.not_lt_zero _)
      · cases k <;> exact absurd h Nat.one_ne_zero
  | cons c w ih =>
      cases k with
      | succ k =>
          rw [List.cons_append, addressLength, addressLength] at h
          rw [List.cons_append, addressLength, addressLength,
            ih (h.imp Nat.lt_of_succ_lt_succ Nat.succ.inj)]
      | zero =>
          rw [List.cons_append, addressLength, addressLength, atNewline_stop hfill] at h
          rw [List.cons_append, addressLength, addressLength, atNewline_stop hd]
          by_cases hc : c = ')'
          · rw [if_pos hc, if_pos hc]
          simp only [if_neg hc] at h ⊢
          by_cases hblank : Text.isAsciiBlank c = true
          · simp only [if_pos hblank] at h ⊢
            rw [addressEndLength_stop d rest
              (h.imp Nat.lt_of_succ_lt_succ Nat.succ.inj)]
          simp only [if_neg hblank] at h ⊢
          by_cases hfault : isAddressFault c = true
          · simp only [if_pos hfault] at h ⊢
            exact hfaulty h
          simp only [if_neg hfault] at h ⊢
          by_cases hescape : c = '\\'
          · simp only [if_pos hescape] at h ⊢
            by_cases hline : atNewline w = true
            · simp only [if_pos hline] at h ⊢
              exact hfaulty h
            · simp only [if_neg hline] at h ⊢
              have hne : w ≠ [] := by
                rintro rfl
                rcases h with h | h
                · exact absurd h (Nat.lt_irrefl 1)
                · exact absurd h (by decide)
              rw [escape_stop hfill [] hne] at h
              rw [escape_stop hd rest hne, ih (h.imp Nat.lt_of_succ_lt_succ Nat.succ.inj)]
          · simp only [if_neg hescape] at h ⊢
            rw [ih (h.imp Nat.lt_of_succ_lt_succ Nat.succ.inj)]

/-- An address that ends inside a text, or is closed at its end. -/
theorem address?_stop (hd : isFiller d = false) (rest : List Char)
    (h : (∀ k ∈ address? w, k < w.length) ∨ address? (w ++ [')']) = address? w) :
    address? (w ++ d :: rest) = address? w := by
  by_cases hw : ∃ e ∈ w, Text.isAsciiBlank e = false
  · obtain ⟨b, c, v, rfl, hb, hc⟩ := exists_blanks_append hw
    simp only [List.append_assoc, List.cons_append, address?_blanks hb hc] at h ⊢
    split
    · rfl
    · next hquote =>
        simp only [if_neg hquote, Option.mem_def, Option.some.injEq, forall_eq', List.length_append,
          Nat.add_left_cancel_iff, Nat.add_lt_add_iff_left] at h
        exact congrArg (fun n => some (b.length + n)) (addressLength_stop hd rest h)
  · have hall : ∀ e ∈ w, Text.isAsciiBlank e = true := by
      intro e he
      by_contra hblank
      exact hw ⟨e, he, Bool.eq_false_iff.2 hblank⟩
    have hblank : w.takeWhile Text.isAsciiBlank = w := List.takeWhile_eq_self_iff.2 hall
    have hlen : address? w = some w.length := by
      rw [address?, hblank, List.drop_length]
      rfl
    rw [hlen, address?_blanks hall (by decide), if_neg (by decide)] at h
    rcases h with h | h
    · exact absurd (h _ rfl) (Nat.lt_irrefl _)
    · exact absurd (Nat.add_eq_left.1 (Option.some.inj h)) (by decide)

/-! ### Names and numbers end before a mark -/

theorem of_isMark (hd : isMark d = true) {P : Char → Bool}
    (h : ['\x7b', '\x7d', ':', ';'].any P = false) : P d = false := by
  have hmem : d ∈ ['\x7b', '\x7d', ':', ';'] := by simpa [isMark] using hd
  exact Bool.eq_false_iff.2 (List.any_eq_false.1 h d hmem)

theorem isFiller_of_isMark (hd : isMark d = true) : isFiller d = false :=
  of_isMark hd (by decide)

theorem getLast?_tail {c : Char} (hw : (c :: w).getLast? ≠ some '\\') :
    w.getLast? ≠ some '\\' := by
  cases w with
  | nil => simp
  | cons e w => rwa [List.getLast?_cons_cons] at hw

theorem getLast?_drop (hw : w.getLast? ≠ some '\\') (n : Nat) :
    (w.drop n).getLast? ≠ some '\\' := by
  rw [List.getLast?_drop]
  split
  · simp
  · exact hw

section

variable (hd : isMark d = true) (rest : List Char)
include hd

theorem name_mark (hw : w.getLast? ≠ some '\\') {k : Nat} (hk : k ≤ w.length) :
    name k (w ++ d :: rest) = name k w := by
  have hfill := isFiller_of_isMark hd
  induction w generalizing k with
  | nil =>
      obtain rfl := Nat.le_zero.1 hk
      have hstop := isStop_of_isMark hd
      have hne : d ≠ '\\' := ne_of_isStop hstop (by decide)
      simp [name, hne, isNameChar_of_isStop hstop]
  | cons c w ih =>
      have ih := fun k => ih (getLast?_tail hw) (k := k)
      cases k with
      | succ k => rw [List.cons_append, name, name, ih k (Nat.le_of_succ_le_succ hk)]
      | zero =>
          rw [List.cons_append, name, name, atNewline_stop hfill, ih 0 (Nat.zero_le _)]
          split
          · next hc =>
              have hne : w ≠ [] := by
                rintro rfl
                exact hw (congrArg some hc)
              rw [escape_stop hfill rest hne, ih _ (escape_le w)]
          · rfl

theorem atName_mark (hw : w.getLast? ≠ some '\\') : atName (w ++ d :: rest) = atName w := by
  have hstop := isStop_of_isMark hd
  have hhyphen : d ≠ '-' := ne_of_isStop hstop (by decide)
  have hescape : d ≠ '\\' := ne_of_isStop hstop (by decide)
  have hstart : isNameStart d = false := of_isMark hd (by decide)
  cases w with
  | nil =>
      rw [List.nil_append, atName_cons, if_neg hhyphen, if_neg hescape, hstart]
      rfl
  | cons c w =>
      rw [List.cons_append, atName_cons, atName_cons, atNewline_stop (isFiller_of_isMark hd)]
      cases w with
      | nil =>
          have hpart : (isNameStart d || d == '-' || d == '\\') = false :=
            of_isMark (P := fun d => isNameStart d || d == '-' || d == '\\') hd (by decide)
          rw [List.nil_append, List.head?_cons, Option.any_some, hpart]
          rfl
      | cons e w => rfl

theorem unitLength_mark (hw : w.getLast? ≠ some '\\') :
    unitLength (w ++ d :: rest) = unitLength w := by
  have hpercent : d ≠ '%' := ne_of_isStop (isStop_of_isMark hd) (by decide)
  have hhead : (w ++ d :: rest).head? = some '%' ↔ w.head? = some '%' := by
    cases w <;> simp [hpercent]
  rw [unitLength_eq, unitLength_eq, atName_mark hd rest hw, name_mark hd rest hw (Nat.zero_le _)]
  simp only [hhead]

theorem numberLength_mark (hw : w.getLast? ≠ some '\\') :
    numberLength (w ++ d :: rest) = numberLength w := by
  rw [numberLength_eq, numberLength_eq, realLength_stop (isStop_of_isMark hd),
    List.drop_append_of_le_length (realLength_le w), unitLength_mark hd rest (getLast?_drop hw _)]

theorem atNumber_mark (w : List Char) : atNumber (w ++ d :: rest) = atNumber w := by
  have hstop := isStop_of_isMark hd
  have hpoint : d ≠ '.' := ne_of_isStop hstop (by decide)
  cases w with
  | nil =>
      rw [List.nil_append, atNumber_cons, if_neg hpoint]
      exact isDigit_of_isStop hstop
  | cons c w => rw [List.cons_append, atNumber_cons, atNumber_cons, atDigit_stop hstop]

theorem takeWhile_blank_mark (w : List Char) :
    (w ++ d :: rest).takeWhile Text.isAsciiBlank = w.takeWhile Text.isAsciiBlank := by
  have hblank : Text.isAsciiBlank d = false := of_isMark hd (by decide)
  induction w with
  | nil => simp [hblank]
  | cons c w ih => rw [List.cons_append, List.takeWhile_cons, List.takeWhile_cons, ih]

end

theorem take_eq_iff_of_not_mem {n : Nat} {l : List Char} (hl : d ∉ l) (hlen : l.length = n)
    (rest : List Char) : (w ++ d :: rest).take n = l ↔ w.take n = l := by
  constructor
  · intro h
    have hle := le_length_of_take h hl
    rwa [List.take_append_of_le_length hle] at h
  · intro h
    have hle : n ≤ w.length := by
      rw [← hlen, ← h, List.length_take]
      exact Nat.min_le_right _ _
    rwa [List.take_append_of_le_length hle]

/-! ### Tokens stay in a text -/

theorem name_le (k : Nat) (cs : List Char) : (name k cs).2 ≤ cs.length := by
  induction cs generalizing k with
  | nil => cases k <;> exact Nat.le_refl 0
  | cons c cs ih =>
      cases k with
      | succ k => exact Nat.succ_le_succ (ih k)
      | zero =>
          rw [name]
          split
          · split
            · exact Nat.zero_le _
            · exact Nat.succ_le_succ (ih _)
          · split
            · exact Nat.succ_le_succ (ih 0)
            · exact Nat.zero_le _

theorem stringLength_le (q : Char) (k : Nat) (cs : List Char) : stringLength q k cs ≤ cs.length := by
  induction cs generalizing k with
  | nil => cases k <;> exact Nat.le_refl 0
  | cons c cs ih =>
      cases k with
      | succ k => exact Nat.succ_le_succ (ih k)
      | zero =>
          rw [stringLength, List.length_cons]
          have hmore := ih 0
          have hskip := ih (if atNewline cs then newlineLength cs else (escape cs).2)
          dsimp only
          split
          · omega
          · split
            · omega
            · split <;> omega

theorem commentLength_le (cs : List Char) : commentLength cs ≤ cs.length := by
  induction cs using commentLength.induct with
  | case1 cs => exact Nat.succ_le_succ (Nat.succ_le_succ (Nat.zero_le _))
  | case2 c cs hc ih =>
      rw [commentLength]
      · exact Nat.succ_le_succ ih
      · exact hc
  | case3 => exact Nat.le_refl _

theorem faultyAddressLength_le (cs : List Char) : faultyAddressLength cs ≤ cs.length := by
  induction cs using faultyAddressLength.induct with
  | case1 cs => exact Nat.succ_le_succ (Nat.zero_le _)
  | case2 cs ih => exact Nat.succ_le_succ (Nat.succ_le_succ ih)
  | case3 cs ih => exact Nat.succ_le_succ (Nat.succ_le_succ ih)
  | case4 c cs hc hclosed hescaped ih =>
      rw [faultyAddressLength]
      · exact Nat.succ_le_succ ih
      · exact hc
      · exact hclosed
      · exact hescaped
  | case5 => exact Nat.le_refl _

theorem addressEndLength_le (cs : List Char) : addressEndLength cs ≤ cs.length := by
  induction cs with
  | nil => exact Nat.le_refl _
  | cons c cs ih =>
      rw [addressEndLength]
      split
      · exact Nat.succ_le_succ (Nat.zero_le _)
      · split
        · exact Nat.succ_le_succ ih
        · exact Nat.succ_le_succ (faultyAddressLength_le cs)

theorem addressLength_le (k : Nat) (cs : List Char) : addressLength k cs ≤ cs.length := by
  induction cs generalizing k with
  | nil => cases k <;> exact Nat.le_refl 0
  | cons c cs ih =>
      cases k with
      | succ k => exact Nat.succ_le_succ (ih k)
      | zero =>
          have hfaulty := faultyAddressLength_le cs
          have hend := addressEndLength_le cs
          have hescape := ih (escape cs).2
          have hmore := ih 0
          rw [addressLength, List.length_cons]
          repeat' split
          all_goals omega

theorem address?_le {cs : List Char} {k : Nat} (h : address? cs = some k) : k ≤ cs.length := by
  have hblanks : (cs.takeWhile Text.isAsciiBlank).length ≤ cs.length :=
    (List.takeWhile_sublist _).length_le
  have haddress := addressLength_le 0 (cs.drop (cs.takeWhile Text.isAsciiBlank).length)
  rw [List.length_drop] at haddress
  rw [address?] at h
  split at h
  · exact absurd h (by simp)
  · exact absurd h (by simp)
  · next heq =>
      have hlen := congrArg List.length heq
      rw [List.length_drop, List.length_cons] at hlen
      have hk := Option.some.inj h
      omega
  · have hk := Option.some.inj h
    omega

theorem unitLength_le_length (cs : List Char) : unitLength cs ≤ cs.length := by
  rw [unitLength_eq]
  split
  · next h =>
      obtain ⟨cs, rfl⟩ := List.head?_eq_some_iff.1 h
      exact Nat.succ_le_succ (Nat.zero_le _)
  · split
    · exact name_le 0 cs
    · exact Nat.zero_le _

theorem numberLength_le_length (cs : List Char) : numberLength cs ≤ cs.length := by
  have hreal := realLength_le cs
  have hunit := unitLength_le_length (cs.drop (realLength cs))
  rw [List.length_drop] at hunit
  rw [numberLength_eq]
  omega

theorem nameToken_le (cs : List Char) : (nameToken cs).2 ≤ cs.length := by
  have hname := name_le 0 cs
  unfold nameToken
  dsimp only
  split
  · next rest heq =>
      have hlen := congrArg List.length heq
      rw [List.length_drop, List.length_cons] at hlen
      split
      · split
        · next k hk =>
            have haddress := address?_le hk
            dsimp only
            omega
        · dsimp only
          omega
      · dsimp only
        omega
  · exact hname

theorem scan_le (c : Char) (cs : List Char) : (scan c cs).2 ≤ cs.length + 1 := by
  have hname := name_le 0 cs
  have hone : 1 ≤ cs.length + 1 := Nat.le_add_left 1 _
  have h := scanned c cs
  generalize scan c cs = p at h
  cases h with
  | blank h =>
      have hblanks := (List.takeWhile_sublist Text.isAsciiBlank (l := cs)).length_le
      omega
  | quoted h =>
      have hstring := stringLength_le c 0 cs
      omega
  | opening b h => exact hone
  | closing b h => exact hone
  | colon h => exact hone
  | semicolon h => exact hone
  | hash h => omega
  | atKeyword h => omega
  | comment h hs =>
      obtain ⟨cs, rfl⟩ := List.head?_eq_some_iff.1 hs
      have hcomment := commentLength_le cs
      rw [List.length_cons, List.drop_succ_cons, List.drop_zero]
      omega
  | hiddenStart h hs =>
      have hlen := congrArg List.length hs
      rw [List.length_take, List.length_cons, List.length_cons, List.length_cons] at hlen
      dsimp only at hlen ⊢
      omega
  | number => exact numberLength_le_length (c :: cs)
  | signed h =>
      have hnumber := numberLength_le_length cs
      omega
  | hiddenEnd h hs =>
      have hlen := congrArg List.length hs
      rw [List.length_take, List.length_cons, List.length_cons] at hlen
      dsimp only at hlen ⊢
      omega
  | word h => exact nameToken_le (c :: cs)
  | single => exact hone

/-! ### Tokens -/

/-- Two tokens with their lengths agree, if the first one ends inside the text `c :: w` or is closed at
its end. -/
def Settled (c : Char) (w : List Char) (x y : Token × Nat) : Prop :=
  (x.2 ≤ w.length ∨ Lexeme.isClosed ⟨x.1, c :: w⟩ = true) → y = x

variable {c : Char}

theorem Settled.of_eq {x y : Token × Nat} (h : y = x) : Settled c w x y :=
  fun _ => h

theorem Settled.ite {C C' : Prop} [Decidable C] [Decidable C'] {a a' b b' : Token × Nat}
    (hC : C' ↔ C) (ha : C → Settled c w a a') (hb : ¬C → Settled c w b b') :
    Settled c w (if C then a else b) (if C' then a' else b') := by
  by_cases hc : C
  · rw [if_pos hc, if_pos (hC.2 hc)]
    exact ha hc
  · rw [if_neg hc, if_neg (mt hC.1 hc)]
    exact hb hc

section

variable (hd : isMark d = true) (rest : List Char)
include hd

theorem quoted_settled (hc : c = '"' ∨ c = '\'') :
    Settled c w (other, 1 + stringLength c 0 w) (other, 1 + stringLength c 0 (w ++ d :: rest)) := by
  intro h
  have hq : isFiller c = false := by
    rcases hc with rfl | rfl <;> decide
  have hstring : stringLength c 0 w < w.length ∨
      stringLength c 0 (w ++ [c]) = stringLength c 0 w := by
    refine h.imp (fun hlt => ?_) fun hclosed => ?_
    · dsimp only at hlt
      omega
    · rw [Lexeme.isClosed] at hclosed
      dsimp only at hclosed
      rw [if_pos hc] at hclosed
      exact beq_iff_eq.1 hclosed
  rw [stringLength_stop (isFiller_of_isMark hd) rest hq hstring]

theorem comment_settled (hw : w.head? = some '*') :
    Settled c w (comment, 2 + commentLength (w.drop 1))
      (comment, 2 + commentLength ((w ++ d :: rest).drop 1)) := by
  intro h
  obtain ⟨w, rfl⟩ := List.head?_eq_some_iff.1 hw
  have hslash : d ≠ '/' := ne_of_isStop (isStop_of_isMark hd) (by decide)
  have hcomment : commentLength w < w.length ∨
      commentLength (w ++ ['*', '/']) = commentLength w := by
    refine h.imp (fun hlt => ?_) fun hclosed => ?_
    · simp only [List.drop_succ_cons, List.drop_zero, List.length_cons] at hlt
      omega
    · exact beq_iff_eq.1 hclosed
  simp only [List.cons_append, List.drop_succ_cons, List.drop_zero,
    commentLength_stop hslash rest hcomment]

theorem nameToken_settled (hc : ¬(c = '"' ∨ c = '\'')) (hw : (c :: w).getLast? ≠ some '\\') :
    Settled c w (nameToken (c :: w)) (nameToken (c :: w ++ d :: rest)) := by
  have hname := name_mark hd rest hw (Nat.zero_le _)
  have hn := name_le 0 (c :: w)
  have hdrop : (c :: w ++ d :: rest).drop (name 0 (c :: w)).2 =
      (c :: w).drop (name 0 (c :: w)).2 ++ d :: rest :=
    List.drop_append_of_le_length hn
  by_cases hopen : ∃ v, (c :: w).drop (name 0 (c :: w)).2 = '(' :: v
  · obtain ⟨v, hv⟩ := hopen
    have hdrop : (c :: w ++ d :: rest).drop (name 0 (c :: w)).2 = '(' :: (v ++ d :: rest) :=
      hdrop.trans (congrArg (· ++ d :: rest) hv)
    have hlen := congrArg List.length hv
    rw [List.length_drop, List.length_cons, List.length_cons] at hlen
    intro h
    unfold nameToken at h ⊢
    simp only [hname, hdrop, hv] at h ⊢
    by_cases hurl : Text.lower (name 0 (c :: w)).1 = "url".toList
    · rw [if_pos hurl] at h
      rw [if_pos hurl, if_pos hurl]
      have haddress : (∀ k ∈ address? v, k < v.length) ∨ address? (v ++ [')']) = address? v := by
        cases hk : address? v with
        | none => exact Or.inl fun k hk => absurd hk (by simp)
        | some k =>
            rw [hk] at h
            refine h.imp (fun hlt m hm => ?_) fun hclosed => ?_
            · obtain rfl := Option.some.inj hm
              dsimp only at hlt
              omega
            · simp only [Lexeme.isClosed, if_neg hc, addressBody?, hv, if_pos hurl] at hclosed
              exact (beq_iff_eq.1 hclosed).trans hk
      rw [address?_stop (isFiller_of_isMark hd) rest haddress]
    · rw [if_neg hurl, if_neg hurl]
  · have hround : d ≠ '(' := ne_of_isStop (isStop_of_isMark hd) (by decide)
    have hother : ∀ v, (c :: w).drop (name 0 (c :: w)).2 ++ d :: rest ≠ '(' :: v := by
      intro v h
      obtain ⟨v, hv, -⟩ := exists_of_append_eq_cons h hround
      exact hopen ⟨v, hv⟩
    refine Settled.of_eq ?_
    rcases nameToken_cases (c :: w) with h | ⟨hv, -⟩
    · rcases nameToken_cases (c :: w ++ d :: rest) with h' | ⟨⟨v, hv⟩, -⟩
      · rw [h, h', hname]
      · rw [hname, hdrop] at hv
        exact absurd hv (hother v)
    · exact absurd hv hopen

/-- A token is the same in front of a mark as at the end of a text. -/
theorem scan_settled (hw : (c :: w).getLast? ≠ some '\\') :
    Settled c w (scan c w) (scan c (w ++ d :: rest)) := by
  have hstop := isStop_of_isMark hd
  have htail := getLast?_tail hw
  have hword : atName (c :: (w ++ d :: rest)) = atName (c :: w) := atName_mark hd rest hw
  have hpart : atName (w ++ d :: rest) = atName w := atName_mark hd rest htail
  have hdigit : atDigit (w ++ d :: rest) = atDigit w := atDigit_stop hstop w rest
  have hname : name 0 (w ++ d :: rest) = name 0 w := name_mark hd rest htail (Nat.zero_le _)
  have hhead : ∀ {e : Char}, d ≠ e → ((w ++ d :: rest).head? = some e ↔ w.head? = some e) := by
    intro e he
    cases w <;> simp [he]
  have hne : ∀ {e : Char}, isStop e = false → d ≠ e := ne_of_isStop hstop
  have hhyphen : ((w ++ d :: rest).head? == some '-') = (w.head? == some '-') := by
    rw [Bool.eq_iff_iff, beq_iff_eq, beq_iff_eq, hhead (hne (by decide))]
  have hstart : d ∉ ['!', '-', '-'] := by simp [hne (e := '!') rfl, hne (e := '-') rfl]
  have hend : d ∉ ['-', '>'] := by simp [hne (e := '-') rfl, hne (e := '>') rfl]
  -- Both scans take the same branch at each of the tests: none of them sees the mark.
  unfold scan
  refine Settled.ite Iff.rfl (fun _ => .of_eq (by rw [takeWhile_blank_mark hd])) fun _ => ?_
  refine Settled.ite Iff.rfl (fun hc => quoted_settled hd rest hc) fun hquote => ?_
  refine Settled.ite Iff.rfl (fun _ => .of_eq rfl) fun _ => ?_
  refine Settled.ite Iff.rfl (fun _ => .of_eq rfl) fun _ => ?_
  refine Settled.ite Iff.rfl (fun _ => .of_eq rfl) fun _ => ?_
  refine Settled.ite Iff.rfl (fun _ => .of_eq rfl) fun _ => ?_
  refine Settled.ite Iff.rfl (fun _ => .of_eq rfl) fun _ => ?_
  refine Settled.ite Iff.rfl (fun _ => .of_eq rfl) fun _ => ?_
  refine Settled.ite Iff.rfl (fun _ => .of_eq rfl) fun _ => ?_
  refine Settled.ite Iff.rfl (fun _ => .of_eq rfl) fun _ => ?_
  refine Settled.ite Iff.rfl (fun _ => .of_eq (by rw [hpart, hdigit, hhyphen, hname])) fun _ => ?_
  refine Settled.ite Iff.rfl (fun _ => .of_eq (by rw [hpart, hname])) fun _ => ?_
  refine Settled.ite (and_congr Iff.rfl (hhead (hne (by decide))))
    (fun hc => comment_settled hd rest hc.2) fun _ => ?_
  refine Settled.ite (and_congr Iff.rfl (take_eq_iff_of_not_mem hstart rfl rest))
    (fun _ => .of_eq rfl) fun _ => ?_
  refine Settled.ite (by rw [hdigit]) (fun _ => .of_eq ?_) fun _ => ?_
  · exact congrArg (Prod.mk other) (numberLength_mark hd rest hw)
  refine Settled.ite (by rw [atNumber_mark hd]) (fun _ => .of_eq ?_) fun _ => ?_
  · rw [numberLength_mark hd rest htail]
  refine Settled.ite (and_congr Iff.rfl (take_eq_iff_of_not_mem hend rfl rest))
    (fun _ => .of_eq rfl) fun _ => ?_
  exact Settled.ite (by rw [hword]) (fun _ => nameToken_settled hd rest hquote hw)
    fun _ => .of_eq rfl

end

end Token

/-! ### Lexemes -/

/-- A text without open comments, strings and addresses is cut into lexemes by itself, up to the mark
that follows. -/
theorem lexemes_append_mark {d : Char} (hd : Token.isMark d = true) {w : List Char}
    (hclosed : ∀ l ∈ lexemes w, l.isClosed = true) (hw : w.getLast? ≠ some '\\')
    (rest : List Char) : lexemes (w ++ d :: rest) = lexemes w ++ lexemes (d :: rest) := by
  induction hn : w.length using Nat.strongRecOn generalizing w with
  | ind n ih =>
      cases w with
      | nil => rfl
      | cons c w =>
          rw [lexemes_cons] at hclosed
          obtain ⟨hfirst, hmore⟩ := List.forall_mem_cons.1 hclosed
          have hle := Token.scan_le c w
          have hsettled : Token.scan c (w ++ d :: rest) = Token.scan c w := by
            refine Token.scan_settled hd rest hw ?_
            -- Only the last token reaches the end of the text; then its lexeme is what is left of it.
            by_cases hlast : (Token.scan c w).2 ≤ w.length
            · exact Or.inl hlast
            · refine Or.inr ?_
              rwa [List.take_of_length_le (by omega)] at hfirst
          have hprev : (Token.scan c w).2 - 1 ≤ w.length := Nat.sub_le_of_le_add hle
          have hback := ih _ (by rw [← hn, List.length_cons, List.length_drop]; omega) hmore
            (Token.getLast?_drop (Token.getLast?_tail hw) _) rfl
          rw [List.cons_append, lexemes_cons, lexemes_cons, hsettled,
            List.take_append_of_le_length hprev, List.drop_append_of_le_length hprev, hback,
            List.cons_append]

/-- What is whole, and what is left open: a string, an address, a comment and a bracket. -/
example : IsWhole "a: \"b;\" [c]; d: url(e) /* ; */".toList ∧ ¬IsWhole "a: \"b\\\"".toList ∧
    ¬IsWhole "url(a".toList ∧ ¬IsWhole "/* a *".toList ∧ ¬IsWhole "(a]".toList := by
  decide

end Sheet
end Montage
