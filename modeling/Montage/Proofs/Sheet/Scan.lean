import Mathlib.Data.List.TakeWhile
import Montage.Sheet.Token

/-!
# Tokens of plain texts

Texts without quotes, brackets, slashes, semicolons and backslashes are cut at the marks around them.

**Input.** A plain text, followed by a mark: a curly bracket, a colon or a semicolon.

**Algorithm.** A name, a number or a blank ends before a mark, since no character of a plain text makes
a token go on past it. Tokens that mean something to the grammar show in their texts.

**Results.**
* `Token.scan_length_le`: a token of a plain text ends before the next mark.
* `Token.exists_sign`: brackets, colons, semicolons, comments and at-keywords show in their texts.
* `lexemes_plain_append`: a plain text is cut into lexemes by itself, and none of them is a bracket, a
  semicolon or a comment.
-/

namespace Montage
namespace Sheet

/-- The character that opens a bracket. -/
def Bracket.left : Bracket → Char
  | round => '('
  | square => '['
  | curly => '\x7b'

/-- The character that closes a bracket. -/
def Bracket.right : Bracket → Char
  | round => ')'
  | square => ']'
  | curly => '\x7d'

namespace Token

/-- The marks between selectors, names, values and entries. -/
def isMark (c : Char) : Bool :=
  ['\x7b', '\x7d', ':', ';'].contains c

/-- The characters that end a name or a number: blanks and marks. -/
def isStop (c : Char) : Bool :=
  Text.isAsciiBlank c || isMark c

variable {w : List Char} {d : Char}

theorem ne_of_isStop {c : Char} (h : isStop d = true) (hc : isStop c = false) : d ≠ c :=
  fun hdc => Bool.eq_false_iff.1 hc (hdc ▸ h)

theorem isNameChar_of_isStop (h : isStop d = true) : isNameChar d = false := by
  have hd : d ∈ [' ', '\t', '\n', '\x0c', '\r', '\x7b', '\x7d', ':', ';'] := by
    simpa [isStop, isMark, Text.isAsciiBlank, or_assoc] using h
  exact Bool.eq_false_iff.2 (List.any_eq_false.1 (by decide) d hd)

theorem isDigit_of_isStop (h : isStop d = true) : Decimal.isDigit d = false := by
  have hname := isNameChar_of_isStop h
  rw [isNameChar, Bool.or_eq_false_iff, Bool.or_eq_false_iff] at hname
  exact hname.1.2

/-- The first character of a text that goes on with `d`, if it is not `d`. -/
theorem exists_of_append_eq_cons {a : Char} {rest ds : List Char} (h : w ++ d :: rest = a :: ds)
    (hne : d ≠ a) : ∃ w', w = a :: w' ∧ ds = w' ++ d :: rest := by
  cases w with
  | nil => exact absurd (List.cons.inj h).1 hne
  | cons c w =>
      obtain ⟨rfl, rfl⟩ := List.cons.inj h
      exact ⟨w, rfl, rfl⟩

/-! ### Numbers end before a stop -/

section

variable (hd : isStop d = true) (w rest : List Char)
include hd

theorem digitsLength_stop : digitsLength (w ++ d :: rest) = digitsLength w := by
  induction w with
  | nil => simp [digitsLength, isDigit_of_isStop hd]
  | cons c w ih =>
      simp only [digitsLength, List.cons_append, List.takeWhile_cons] at ih ⊢
      split
      · exact congrArg (· + 1) ih
      · rfl

theorem atDigit_stop : atDigit (w ++ d :: rest) = atDigit w := by
  cases w with
  | nil => exact isDigit_of_isStop hd
  | cons c w => rfl

theorem fractionLength_stop : fractionLength (w ++ d :: rest) = fractionLength w := by
  have hpoint : d ≠ '.' := ne_of_isStop hd (by decide)
  rw [fractionLength.eq_def, fractionLength.eq_def]
  split
  · next heq =>
      obtain ⟨w, rfl, rfl⟩ := exists_of_append_eq_cons heq hpoint
      simp only [atDigit_stop hd, digitsLength_stop hd]
  · next hne =>
      split
      · exact absurd rfl (hne _)
      · rfl

theorem exponentLength_stop : exponentLength (w ++ d :: rest) = exponentLength w := by
  cases w with
  | nil =>
      have hlower : d ≠ 'e' := ne_of_isStop hd (by decide)
      have hupper : d ≠ 'E' := ne_of_isStop hd (by decide)
      simp [exponentLength, hlower, hupper]
  | cons c w =>
      have hplus : d ≠ '+' := ne_of_isStop hd (by decide)
      have hminus : d ≠ '-' := ne_of_isStop hd (by decide)
      rw [List.cons_append, exponentLength.eq_def, exponentLength.eq_def (c :: w)]
      dsimp only
      split
      · split
        · next heq =>
            obtain ⟨w, rfl, rfl⟩ := exists_of_append_eq_cons heq hplus
            simp only [atDigit_stop hd, digitsLength_stop hd]
        · next heq =>
            obtain ⟨w, rfl, rfl⟩ := exists_of_append_eq_cons heq hminus
            simp only [atDigit_stop hd, digitsLength_stop hd]
        · next hp hm =>
            rw [atDigit_stop hd, digitsLength_stop hd]
            symm
            split
            · exact (hp _ rfl).elim
            · exact (hm _ rfl).elim
            · rfl
      · rfl

end

theorem digitsLength_le (cs : List Char) : digitsLength cs ≤ cs.length :=
  (List.takeWhile_sublist _).length_le

theorem fractionLength_le (cs : List Char) : fractionLength cs ≤ cs.length := by
  unfold fractionLength
  split
  · next cs =>
      have h := digitsLength_le cs
      rw [List.length_cons]
      split <;> omega
  · exact Nat.zero_le _

theorem exponentLength_le (cs : List Char) : exponentLength cs ≤ cs.length := by
  unfold exponentLength
  split
  · exact Nat.zero_le _
  · next c cs =>
      have h := digitsLength_le cs
      rw [List.length_cons]
      split
      · split
        · next ds =>
            have h := digitsLength_le ds
            rw [List.length_cons]
            split <;> omega
        · next ds =>
            have h := digitsLength_le ds
            rw [List.length_cons]
            split <;> omega
        · split <;> omega
      · exact Nat.zero_le _

/-- The length of a number without its sign and its unit. -/
def realLength (cs : List Char) : Nat :=
  let n := digitsLength cs + fractionLength (cs.drop (digitsLength cs))
  n + exponentLength (cs.drop n)

theorem numberLength_eq (cs : List Char) :
    numberLength cs = realLength cs + unitLength (cs.drop (realLength cs)) :=
  rfl

theorem realLength_le (cs : List Char) : realLength cs ≤ cs.length := by
  have hdigits := digitsLength_le cs
  have hfraction := fractionLength_le (cs.drop (digitsLength cs))
  have hexponent := exponentLength_le
    (cs.drop (digitsLength cs + fractionLength (cs.drop (digitsLength cs))))
  rw [List.length_drop] at hfraction hexponent
  rw [realLength]
  omega

theorem realLength_stop (hd : isStop d = true) (w rest : List Char) :
    realLength (w ++ d :: rest) = realLength w := by
  have hdigits := digitsLength_le w
  have hfraction := fractionLength_le (w.drop (digitsLength w))
  rw [List.length_drop] at hfraction
  simp only [realLength, digitsLength_stop hd]
  rw [List.drop_append_of_le_length hdigits, fractionLength_stop hd,
    List.drop_append_of_le_length (by omega), exponentLength_stop hd]

/-! ### Plain texts -/

/-- The characters that open or close something, end an entry, or start an escape or a comment. -/
def isSpecial (c : Char) : Bool :=
  ['"', '\'', '(', ')', '[', ']', '\x7b', '\x7d', ';', '/', '\\'].contains c

/-- A text without special characters. -/
def IsPlain (cs : List Char) : Prop :=
  ∀ c ∈ cs, isSpecial c = false

instance (cs : List Char) : Decidable (IsPlain cs) :=
  List.decidableBAll _ cs

theorem IsPlain.tail {c : Char} {cs : List Char} (h : IsPlain (c :: cs)) : IsPlain cs :=
  fun e he => h e (List.mem_cons_of_mem c he)

theorem IsPlain.drop {cs : List Char} (h : IsPlain cs) (n : Nat) : IsPlain (cs.drop n) :=
  fun e he => h e (List.mem_of_mem_drop he)

theorem IsPlain.ne {c e : Char} {cs : List Char} (h : IsPlain (c :: cs)) (he : isSpecial e = true) :
    c ≠ e := fun hce => Bool.eq_false_iff.1 (h c List.mem_cons_self) (hce ▸ he)

theorem isStop_of_isMark (h : isMark d = true) : isStop d = true := by
  simp [isStop, h]

section

variable (hd : isMark d = true) (rest : List Char)
include hd

theorem name_length_le (hw : IsPlain w) : (name 0 (w ++ d :: rest)).2 ≤ w.length := by
  have hstop := isStop_of_isMark hd
  induction w with
  | nil =>
      have hne : d ≠ '\\' := ne_of_isStop hstop (by decide)
      simp [name, hne, isNameChar_of_isStop hstop]
  | cons c w ih =>
      rw [List.cons_append, name, if_neg (hw.ne (by decide))]
      split
      · exact Nat.succ_le_succ (ih hw.tail)
      · exact Nat.zero_le _

theorem unitLength_le (hw : IsPlain w) : unitLength (w ++ d :: rest) ≤ w.length := by
  have hne : d ≠ '%' := ne_of_isStop (isStop_of_isMark hd) (by decide)
  rw [unitLength.eq_def]
  split
  · next heq =>
      obtain ⟨w, rfl, -⟩ := exists_of_append_eq_cons heq hne
      exact Nat.succ_le_succ (Nat.zero_le _)
  · split
    · exact name_length_le hd rest hw
    · exact Nat.zero_le _

theorem numberLength_le (hw : IsPlain w) : numberLength (w ++ d :: rest) ≤ w.length := by
  have hreal := realLength_le w
  have hunit := unitLength_le hd rest (hw.drop (realLength w))
  rw [numberLength_eq, realLength_stop (isStop_of_isMark hd), List.drop_append_of_le_length hreal]
  rw [List.length_drop] at hunit
  omega

end

/-! ### What a token can be -/

/-- A name is followed by a round bracket, or it stands by itself. -/
theorem nameToken_cases (cs : List Char) :
    nameToken cs = (ident (String.ofList (name 0 cs).1), (name 0 cs).2) ∨
      (∃ rest, cs.drop (name 0 cs).2 = '(' :: rest) ∧
        (nameToken cs = (opening .round, (name 0 cs).2 + 1) ∨
          ∃ k, nameToken cs = (other, (name 0 cs).2 + 1 + k)) := by
  unfold nameToken
  dsimp only
  split
  · next rest heq =>
      refine Or.inr ⟨⟨rest, heq⟩, ?_⟩
      split
      · split
        · exact Or.inr ⟨_, rfl⟩
        · exact Or.inl rfl
      · exact Or.inl rfl
  · exact Or.inl rfl

/-- The tokens that start with a character, each with its length. -/
inductive Scanned (c : Char) (cs : List Char) : Token × Nat → Prop
  | blank (h : Text.isAsciiBlank c = true) :
      Scanned c cs (blank, 1 + (cs.takeWhile Text.isAsciiBlank).length)
  | quoted (h : c = '"' ∨ c = '\'') : Scanned c cs (other, 1 + stringLength c 0 cs)
  | opening (b : Bracket) (h : c = b.left) : Scanned c cs (opening b, 1)
  | closing (b : Bracket) (h : c = b.right) : Scanned c cs (closing b, 1)
  | colon (h : c = ':') : Scanned c cs (colon, 1)
  | semicolon (h : c = ';') : Scanned c cs (semicolon, 1)
  | hash (h : c = '#') : Scanned c cs (other, 1 + (name 0 cs).2)
  | atKeyword (h : c = '@') :
      Scanned c cs (atKeyword (String.ofList (name 0 cs).1), 1 + (name 0 cs).2)
  | comment (h : c = '/') (hs : cs.head? = some '*') :
      Scanned c cs (comment, 2 + commentLength (cs.drop 1))
  | hiddenStart (h : c = '<') (hs : cs.take 3 = ['!', '-', '-']) : Scanned c cs (hidden, 4)
  | number (h : (Decimal.isDigit c || c == '.' && atDigit cs) = true) :
      Scanned c cs (other, numberLength (c :: cs))
  | signed (h : c = '+' ∨ c = '-') : Scanned c cs (other, 1 + numberLength cs)
  | hiddenEnd (h : c = '-') (hs : cs.take 2 = ['-', '>']) : Scanned c cs (hidden, 3)
  | word (h : atName (c :: cs) = true) : Scanned c cs (nameToken (c :: cs))
  | single (h : c = '#' ∨ c = '@' ∨ ¬ atName (c :: cs) = true) : Scanned c cs (other, 1)

/-- What a token can be: the inversion of `scan`, one case a branch. -/
theorem scanned (c : Char) (cs : List Char) : Scanned c cs (scan c cs) := by
  unfold scan
  refine iteInduction (fun h => .blank h) fun _ => ?_
  refine iteInduction (fun h => .quoted h) fun _ => ?_
  refine iteInduction (fun h => .opening .round h) fun _ => ?_
  refine iteInduction (fun h => .closing .round h) fun _ => ?_
  refine iteInduction (fun h => .opening .square h) fun _ => ?_
  refine iteInduction (fun h => .closing .square h) fun _ => ?_
  refine iteInduction (fun h => .opening .curly h) fun _ => ?_
  refine iteInduction (fun h => .closing .curly h) fun _ => ?_
  refine iteInduction (fun h => .colon h) fun _ => ?_
  refine iteInduction (fun h => .semicolon h) fun _ => ?_
  refine iteInduction (fun h => iteInduction (fun _ => .hash h) fun _ => .single (.inl h))
    fun _ => ?_
  refine iteInduction (fun h => iteInduction (fun _ => .atKeyword h)
    fun _ => .single (.inr (.inl h))) fun _ => ?_
  refine iteInduction (fun h => .comment h.1 h.2) fun _ => ?_
  refine iteInduction (fun h => .hiddenStart h.1 h.2) fun _ => ?_
  refine iteInduction (fun h => .number h) fun _ => ?_
  refine iteInduction (fun h => .signed h.1) fun _ => ?_
  refine iteInduction (fun h => .hiddenEnd h.1 h.2) fun _ => ?_
  exact iteInduction (fun h => .word h) fun h => .single (.inr (.inr h))

theorem le_length_of_take {rest l : List Char} {n : Nat} (h : (w ++ d :: rest).take n = l)
    (hd : d ∉ l) : n ≤ w.length := by
  by_contra hn
  obtain ⟨k, hk⟩ : ∃ k, n - w.length = k + 1 := ⟨n - w.length - 1, by omega⟩
  refine hd (h ▸ ?_)
  rw [List.take_append, hk, List.take_succ_cons]
  exact List.mem_append_right _ List.mem_cons_self

theorem blanksLength_le (hd : isMark d = true) (w rest : List Char) :
    ((w ++ d :: rest).takeWhile Text.isAsciiBlank).length ≤ w.length := by
  induction w with
  | nil =>
      have hblank : Text.isAsciiBlank d = false := by
        have hmem : d ∈ ['\x7b', '\x7d', ':', ';'] := by simpa [isMark] using hd
        exact Bool.eq_false_iff.2 (List.any_eq_false.1 (by decide) d hmem)
      simp [hblank]
  | cons c w ih =>
      rw [List.cons_append, List.takeWhile_cons]
      split
      · exact Nat.succ_le_succ ih
      · exact Nat.zero_le _

theorem nameToken_length_le (hd : isMark d = true) (rest : List Char) (hw : IsPlain w) :
    (nameToken (w ++ d :: rest)).2 ≤ w.length := by
  have hname := name_length_le hd rest hw
  rcases nameToken_cases (w ++ d :: rest) with h | ⟨⟨more, h⟩, -⟩
  · rw [h]
    exact hname
  · have hround : isSpecial '(' = true := by decide
    have hne : d ≠ '(' := ne_of_isStop (isStop_of_isMark hd) (by decide)
    rw [List.drop_append_of_le_length hname] at h
    obtain ⟨w', hdrop, -⟩ := exists_of_append_eq_cons h hne
    have hmem : '(' ∈ w.drop (name 0 (w ++ d :: rest)).2 := hdrop ▸ List.mem_cons_self
    exact absurd hround (Bool.eq_false_iff.1 (hw '(' (List.mem_of_mem_drop hmem)))

/-- A token of a plain text ends before the next mark. -/
theorem scan_length_le (hd : isMark d = true) (rest : List Char) {c : Char}
    (hw : IsPlain (c :: w)) : (scan c (w ++ d :: rest)).2 ≤ w.length + 1 := by
  have hname := name_length_le hd rest hw.tail
  have hone : 1 ≤ w.length + 1 := Nat.le_add_left 1 _
  have h := scanned c (w ++ d :: rest)
  generalize scan c (w ++ d :: rest) = p at h
  cases h with
  | blank h =>
      have hblanks := blanksLength_le hd w rest
      omega
  | quoted h =>
      exact absurd h (not_or.2 ⟨hw.ne (by decide), hw.ne (by decide)⟩)
  | opening b h => exact hone
  | closing b h => exact hone
  | colon h => exact hone
  | semicolon h => exact hone
  | hash h => omega
  | atKeyword h => omega
  | comment h hs => exact absurd h (hw.ne (by decide))
  | hiddenStart h hs =>
      have hstart := le_length_of_take hs (d := d) (by
        have hne := fun e (he : isStop e = false) => ne_of_isStop (isStop_of_isMark hd) he
        simp [hne '!' (by decide), hne '-' (by decide)])
      omega
  | number => exact numberLength_le hd rest hw
  | signed h =>
      have hnumber := numberLength_le hd rest hw.tail
      omega
  | hiddenEnd h hs =>
      have hend := le_length_of_take hs (d := d) (by
        have hne := fun e (he : isStop e = false) => ne_of_isStop (isStop_of_isMark hd) he
        simp [hne '-' (by decide), hne '>' (by decide)])
      omega
  | word h => exact nameToken_length_le hd rest hw
  | single => exact hone

/-- A blank token begins with a blank. -/
theorem isAsciiBlank_of_scan {c : Char} {cs : List Char} (h : (scan c cs).1 = .blank) :
    Text.isAsciiBlank c = true := by
  have hs := scanned c cs
  generalize scan c cs = p at h hs
  cases hs with
  | blank hc => exact hc
  | word =>
      rcases nameToken_cases (c :: cs) with hw | ⟨-, hw | ⟨k, hw⟩⟩
      · exact absurd (hw ▸ h) (by simp)
      · exact absurd (hw ▸ h) (by simp)
      · exact absurd (hw ▸ h) (by simp)
  | _ => exact Token.noConfusion h

/-! ### Names -/

theorem name_eq {cs : List Char} (hcs : ∀ c ∈ cs, isNameChar c = true ∧ c.toNat ≠ 0)
    (hd : isStop d = true) (rest : List Char) : name 0 (cs ++ d :: rest) = (cs, cs.length) := by
  induction cs with
  | nil =>
      have hne : d ≠ '\\' := ne_of_isStop hd (by decide)
      simp [name, hne, isNameChar_of_isStop hd]
  | cons c cs ih =>
      obtain ⟨⟨hc, hzero⟩, hcs⟩ := List.forall_mem_cons.1 hcs
      have hne : c ≠ '\\' := fun h => absurd (h ▸ hc) (by decide)
      rw [List.cons_append, name, if_neg hne, if_pos hc, ih hcs]
      dsimp only
      rw [if_neg hzero, List.length_cons]

theorem isDigit_of_isNameStart {c : Char} (h : isNameStart c = true) :
    Decimal.isDigit c = false := by
  rw [Decimal.isDigit, Decimal.digitValue?, if_neg]
  · rfl
  · simp only [isNameStart, Bool.or_eq_true, Bool.and_eq_true, decide_eq_true_eq, beq_iff_eq,
      Char.le_def, UInt32.le_iff_toNat_le] at h ⊢
    have hnat : c.toNat = c.val.toNat := rfl
    rcases h with (((h | h) | rfl) | h) | h
    · change 97 ≤ c.val.toNat ∧ c.val.toNat ≤ 122 at h
      change ¬(48 ≤ c.val.toNat ∧ c.val.toNat ≤ 57)
      omega
    · change 65 ≤ c.val.toNat ∧ c.val.toNat ≤ 90 at h
      change ¬(48 ≤ c.val.toNat ∧ c.val.toNat ≤ 57)
      omega
    · decide
    · change ¬(48 ≤ c.val.toNat ∧ c.val.toNat ≤ 57)
      omega
    · change ¬(48 ≤ c.val.toNat ∧ c.val.toNat ≤ 57)
      omega

theorem atName_of_isNameStart {c : Char} (h : isNameStart c = true) (cs : List Char) :
    atName (c :: cs) = true := by
  rw [atName.eq_def]
  split
  · next heq => exact absurd ((List.cons.inj heq).1 ▸ h) (by decide)
  · next heq => exact absurd ((List.cons.inj heq).1 ▸ h) (by decide)
  · next heq => exact (List.cons.inj heq).1 ▸ h
  · next heq => exact absurd heq (List.cons_ne_nil _ _)

/-- A name that starts with a letter is read up to the stop that follows. -/
theorem scan_name {c : Char} {cs : List Char} (hc : isNameStart c = true)
    (hcs : ∀ e ∈ c :: cs, isNameChar e = true ∧ e.toNat ≠ 0) (hd : isStop d = true)
    (rest : List Char) :
    scan c (cs ++ d :: rest) = (ident (String.ofList (c :: cs)), cs.length + 1) := by
  have hmem : ∀ l : List Char, (l.all fun e => !isNameStart e) = true → c ∉ l := by
    intro l hl hm
    simpa [hc] using List.all_eq_true.1 hl c hm
  have hname := name_eq hcs hd rest
  have hword : nameToken (c :: (cs ++ d :: rest)) =
      (ident (String.ofList (c :: cs)), cs.length + 1) := by
    have hround : d ≠ '(' := ne_of_isStop hd (by decide)
    rw [List.cons_append] at hname
    rcases nameToken_cases (c :: (cs ++ d :: rest)) with h | ⟨⟨more, h⟩, -⟩
    · rw [h, hname]
      rfl
    · rw [hname, List.length_cons, List.drop_succ_cons, List.drop_left] at h
      exact absurd (List.cons.inj h).1 hround
  have h := scanned c (cs ++ d :: rest)
  generalize scan c (cs ++ d :: rest) = p at h
  cases h with
  | blank h =>
      refine absurd ?_ (hmem [' ', '\t', '\n', '\x0c', '\r'] (by decide))
      simpa [Text.isAsciiBlank, or_assoc] using h
  | quoted h => exact absurd (by simpa using h) (hmem ['"', '\''] (by decide))
  | opening b h => cases b <;> exact absurd (h ▸ hc) (by decide)
  | closing b h => cases b <;> exact absurd (h ▸ hc) (by decide)
  | colon h => exact absurd (h ▸ hc) (by decide)
  | semicolon h => exact absurd (h ▸ hc) (by decide)
  | hash h => exact absurd (h ▸ hc) (by decide)
  | atKeyword h => exact absurd (h ▸ hc) (by decide)
  | comment h => exact absurd (h ▸ hc) (by decide)
  | hiddenStart h => exact absurd (h ▸ hc) (by decide)
  | number h =>
      have hpoint : c ≠ '.' := fun hc' => absurd (hc' ▸ hc) (by decide)
      simp [isDigit_of_isNameStart hc, hpoint] at h
  | signed h => exact absurd (by simpa using h) (hmem ['+', '-'] (by decide))
  | hiddenEnd h => exact absurd (h ▸ hc) (by decide)
  | word => exact hword
  | single h =>
      rcases h with h | h | h
      · exact absurd (h ▸ hc) (by decide)
      · exact absurd (h ▸ hc) (by decide)
      · exact absurd (atName_of_isNameStart hc _) h

/-- The characters one of which shows in every token of a kind. Blanks, names and what means nothing to
the grammar can be told by no single character. -/
def signs : Token → List Char
  | comment => ['/']
  | hidden => ['<', '>']
  | atKeyword _ => ['@']
  | colon => [':']
  | semicolon => [';']
  | opening b => [b.left]
  | closing b => [b.right]
  | _ => []

/-- A token that means something to the grammar shows in its text. -/
theorem exists_sign {c : Char} {cs : List Char} (h : (scan c cs).1.signs ≠ []) :
    ∃ e ∈ (scan c cs).1.signs, e ∈ c :: cs.take ((scan c cs).2 - 1) := by
  have hs := scanned c cs
  generalize scan c cs = p at h hs
  cases hs with
  | blank => exact absurd rfl h
  | quoted => exact absurd rfl h
  | opening b hc => exact ⟨b.left, List.mem_singleton_self _, hc ▸ List.mem_cons_self⟩
  | closing b hc => exact ⟨b.right, List.mem_singleton_self _, hc ▸ List.mem_cons_self⟩
  | colon hc => exact ⟨':', List.mem_singleton_self _, hc ▸ List.mem_cons_self⟩
  | semicolon hc => exact ⟨';', List.mem_singleton_self _, hc ▸ List.mem_cons_self⟩
  | hash => exact absurd rfl h
  | atKeyword hc => exact ⟨'@', List.mem_singleton_self _, hc ▸ List.mem_cons_self⟩
  | comment hc => exact ⟨'/', List.mem_singleton_self _, hc ▸ List.mem_cons_self⟩
  | hiddenStart hc => exact ⟨'<', List.mem_cons_self, hc ▸ List.mem_cons_self⟩
  | number => exact absurd rfl h
  | signed => exact absurd rfl h
  | hiddenEnd hc hs => exact ⟨'>', by decide, by simp [hs]⟩
  | word =>
      rcases nameToken_cases (c :: cs) with hw | ⟨⟨rest, hdrop⟩, hw | ⟨k, hw⟩⟩
      · exact absurd (by rw [hw]; rfl) h
      · have hmem : '(' ∈ (c :: cs).take ((name 0 (c :: cs)).2 + 1) := by
          rw [List.take_add_one, ← List.head?_drop, hdrop]
          simp
        rw [hw]
        exact ⟨'(', List.mem_singleton_self _, by simpa using hmem⟩
      · exact absurd (by rw [hw]; rfl) h
  | single => exact absurd rfl h

end Token

/-! ### Lexemes of plain texts -/

open Token (IsPlain isMark)

theorem lexemesFrom_eq (skip : Nat) (cs : List Char) :
    lexemesFrom skip cs = lexemes (cs.drop skip) := by
  induction cs generalizing skip with
  | nil => cases skip <;> rfl
  | cons c cs ih =>
      cases skip with
      | zero => rfl
      | succ skip => exact ih skip

theorem lexemes_cons (c : Char) (cs : List Char) :
    lexemes (c :: cs) =
      ⟨(Token.scan c cs).1, c :: cs.take ((Token.scan c cs).2 - 1)⟩ ::
        lexemes (cs.drop ((Token.scan c cs).2 - 1)) := by
  rw [← lexemesFrom_eq]
  rfl

/-- A plain text is cut into lexemes by itself, up to the mark that follows. What means something to
the grammar shows in it. -/
theorem lexemes_plain_append {w : List Char} (hw : IsPlain w) {d : Char} (hd : isMark d = true)
    (rest : List Char) :
    ∃ ls, lexemes (w ++ d :: rest) = ls ++ lexemes (d :: rest) ∧ textOf ls = w ∧
      ∀ l ∈ ls, l.token.signs ≠ [] → ∃ e ∈ l.token.signs, e ∈ w := by
  generalize hn : w.length = n
  induction n using Nat.strongRecOn generalizing w with
  | ind n ih =>
      cases w with
      | nil => exact ⟨[], rfl, rfl, by simp⟩
      | cons c w =>
          have hle := Token.scan_length_le hd rest hw
          generalize hk : (Token.scan c (w ++ d :: rest)).2 - 1 = k at *
          have hkw : k ≤ w.length := by omega
          obtain ⟨ls, hls, htext, hsigns⟩ :=
            ih (w.drop k).length (by rw [← hn, List.length_cons, List.length_drop]; omega)
              (hw.tail.drop k) rfl
          refine ⟨⟨(Token.scan c (w ++ d :: rest)).1, c :: w.take k⟩ :: ls, ?_, ?_, ?_⟩
          · rw [List.cons_append, lexemes_cons, hk, List.take_append_of_le_length hkw,
              List.drop_append_of_le_length hkw, hls]
            rfl
          · rw [textOf, List.flatMap_cons, ← textOf, htext]
            simp
          · intro l hl hne
            rcases List.mem_cons.1 hl with rfl | hl
            · obtain ⟨e, he, hmem⟩ := Token.exists_sign hne
              rw [hk, List.take_append_of_le_length hkw] at hmem
              exact ⟨e, he, List.cons_subset_cons c (List.take_subset k w) hmem⟩
            · obtain ⟨e, he, hmem⟩ := hsigns l hl hne
              exact ⟨e, he, List.mem_cons_of_mem c (List.mem_of_mem_drop hmem)⟩

end Sheet
end Montage
