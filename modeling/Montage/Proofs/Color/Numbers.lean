import Montage.Decimal.Shortest
import Montage.Proofs.Text.Ends

/-!
# Numbers are read back

What the reader of decimal numbers makes of digits, of the plain text of a number, and of blanks.

**Input.** A run of digits, or a decimal without a positive exponent.

**Algorithm.** The digits around a point are read as one number, and those behind it are counted.

**Results.**
* `Decimal.parse?_digits`: a run of digits is read as its value.
* `Decimal.parse?_plain`: a decimal that is written out is read back.
* `Decimal.free_of_parse?`: nothing with a blank in it is read as a number.
-/

namespace Montage
namespace Decimal

variable {w part : List Char} {n : Nat}

/-! ### Digits -/

theorem isDigit_iff {c : Char} : isDigit c = true ↔ 48 ≤ c.toNat ∧ c.toNat ≤ 57 := by
  have hrange : '0' ≤ c ∧ c ≤ '9' ↔ 48 ≤ c.toNat ∧ c.toNat ≤ 57 := by
    simp only [Char.le_def, UInt32.le_iff_toNat_le]
    rfl
  rw [isDigit, digitValue?]
  split
  · next h => exact iff_of_true rfl (hrange.1 h)
  · next h => exact iff_of_false nofun (mt hrange.2 h)

theorem isDigit_of_mem_toDigits {c : Char} (h : c ∈ Nat.toDigits 10 n) : isDigit c = true := by
  have hc := Nat.isDigit_of_mem_toDigits (by decide) (by decide) h
  rw [isDigit_iff]
  exact Char.isDigit_iff_toNat.1 hc

theorem isBlank_of_isDigit {c : Char} (h : isDigit c = true) : Text.isBlank c = false := by
  have := isDigit_iff.1 h
  simp [Text.isBlank]
  omega

theorem isUpper_of_isDigit {c : Char} (h : isDigit c = true) : c.isUpper = false := by
  have := isDigit_iff.1 h
  rw [Bool.eq_false_iff, ne_eq, Text.isUpper_iff]
  omega

theorem digitsValue_cons_zero (cs : List Char) : digitsValue ('0' :: cs) = digitsValue cs := rfl

theorem digitsValue_zeros (k : Nat) (cs : List Char) :
    digitsValue (List.replicate k '0' ++ cs) = digitsValue cs := by
  induction k with
  | zero => rfl
  | succ k ih =>
      rw [List.replicate_succ, List.cons_append, digitsValue_cons_zero, ih]

theorem digitsValue_toDigits (n : Nat) : digitsValue (Nat.toDigits 10 n) = n := by
  have hvalue : ∀ (cs : List Char) (acc : Nat), (∀ c ∈ cs, isDigit c = true) →
      cs.foldl (fun n c => 10 * n + (digitValue? c).getD 0) acc = Nat.ofDigitChars 10 cs acc := by
    intro cs
    induction cs with
    | nil => exact fun _ _ => rfl
    | cons c cs ih =>
        intro acc hcs
        obtain ⟨hc, hcs⟩ := List.forall_mem_cons.1 hcs
        rw [List.foldl_cons, ih _ hcs, Nat.ofDigitChars_cons]
        have hdigit : (digitValue? c).getD 0 = c.toNat - '0'.toNat := by
          rw [isDigit, digitValue?] at hc
          rw [digitValue?]
          split
          · rfl
          · next h =>
              rw [if_neg h] at hc
              cases hc
        rw [hdigit]
  rw [digitsValue, hvalue _ 0 fun c hc => isDigit_of_mem_toDigits hc]
  exact Nat.ofDigitChars_toDigits (by decide) (by decide)

theorem parseNat?_eq_some (h : parseNat? w = some n) :
    w ≠ [] ∧ (∀ c ∈ w, isDigit c = true) ∧ digitsValue w = n := by
  unfold parseNat? at h
  split at h
  · cases h
  · next hw =>
      rw [Bool.or_eq_true, not_or] at hw
      exact ⟨fun hnil => hw.1 (List.isEmpty_iff.2 hnil),
        List.all_eq_true.1 (by simpa using hw.2), Option.some.inj h⟩

/-- A decimal that is written out has nothing but digits and a point. -/
theorem mem_plain {d : Scientific} {ch : Char} (h : ch ∈ d.plain) : isDigit ch = true ∨ ch = '.' := by
  have hzero : ∀ {k}, ch ∈ List.replicate k '0' → isDigit ch = true := by
    intro k hk
    rw [List.eq_of_mem_replicate hk]
    decide
  unfold Scientific.plain at h
  simp only at h
  split at h
  · rcases List.mem_append.1 h with h | h
    · exact .inl (isDigit_of_mem_toDigits h)
    · exact .inl (hzero h)
  · split at h
    · rcases List.mem_append.1 h with h | h
      · exact .inl (isDigit_of_mem_toDigits (List.mem_of_mem_take h))
      · rcases List.mem_cons.1 h with h | h
        · exact .inr h
        · exact .inl (isDigit_of_mem_toDigits (List.mem_of_mem_drop h))
    · rcases List.mem_cons.1 h with rfl | h
      · exact .inl (by decide)
      · rcases List.mem_cons.1 h with h | h
        · exact .inr h
        · rcases List.mem_append.1 h with h | h
          · exact .inl (hzero h)
          · exact .inl (isDigit_of_mem_toDigits h)

theorem plain_ne_nil (d : Scientific) : d.plain ≠ [] := by
  unfold Scientific.plain
  simp only
  split
  · exact List.append_ne_nil_of_left_ne_nil Nat.toDigits_ne_nil _
  · split <;> simp

/-! ### Literals -/

namespace Literal

/-- A number that begins with a digit is neither signed nor one of the words. -/
theorem parse?_eq {c : Char} {cs : List Char} (hc : isDigit c = true) :
    parse? (c :: cs) = parseDigits? false (c :: cs) := by
  have hrange := isDigit_iff.1 hc
  have hsign : splitSign (c :: cs) = (false, c :: cs) := by
    unfold splitSign
    split
    · next h =>
        rw [(List.cons.inj h).1] at hrange
        exact absurd hrange (by decide)
    · next h =>
        rw [(List.cons.inj h).1] at hrange
        exact absurd hrange (by decide)
    · rfl
  have hword : ∀ word ∈ ["inf", "infinity", "nan"],
      String.ofList (Text.lower (c :: cs)) ≠ word := by
    intro word hmem hword
    have hhead : word.toList.head? = some c := by
      rw [← hword, String.toList_ofList, Text.lower, List.map_cons, List.head?_cons,
        Text.toLower_eq_self (isUpper_of_isDigit hc)]
    have hletter : ∀ word ∈ ["inf", "infinity", "nan"],
        (word.toList.head?.all fun d => 57 < d.toNat) = true := by
      decide
    have hbeyond := hletter word hmem
    rw [hhead] at hbeyond
    exact absurd (of_decide_eq_true hbeyond) (by omega)
  unfold parse?
  rw [hsign]
  simp only
  split
  · next h => exact absurd h (hword _ (by simp))
  · next h => exact absurd h (hword _ (by simp))
  · next h => exact absurd h (hword _ (by simp))
  · rfl

theorem takeWhile_digits (hw : ∀ c ∈ w, isDigit c = true) (rest : List Char)
    (hrest : ∀ c ∈ rest.head?, isDigit c = false) :
    (w ++ rest).takeWhile isDigit = w ∧ (w ++ rest).dropWhile isDigit = rest := by
  rw [List.takeWhile_append_of_pos hw, List.dropWhile_append_of_pos hw]
  cases rest with
  | nil => exact ⟨List.append_nil w, rfl⟩
  | cons c cs =>
      have hc : ¬ isDigit c = true := Bool.eq_false_iff.1 (hrest c rfl)
      rw [List.takeWhile_cons_of_neg hc, List.dropWhile_cons_of_neg hc]
      exact ⟨List.append_nil w, rfl⟩

/-- A run of digits is read as its value. -/
theorem parse?_digits (h : parseNat? w = some n) : parse? w = some (finite false n 0) := by
  obtain ⟨hne, hw, rfl⟩ := parseNat?_eq_some h
  obtain ⟨c, cs, rfl⟩ := List.exists_cons_of_ne_nil hne
  obtain ⟨htake, hdrop⟩ := takeWhile_digits hw [] nofun
  rw [List.append_nil] at htake hdrop
  rw [parse?_eq (hw c List.mem_cons_self), parseDigits?, htake, hdrop]
  simp [fraction, parseExponent?]

/-- Digits around a point are read as one number, and those behind the point are counted. -/
theorem parse?_point (hne : w ≠ []) (hw : ∀ c ∈ w, isDigit c = true)
    (hp : ∀ c ∈ part, isDigit c = true) :
    parse? (w ++ '.' :: part) = some (finite false (digitsValue (w ++ part)) (-part.length)) := by
  obtain ⟨c, cs, rfl⟩ := List.exists_cons_of_ne_nil hne
  obtain ⟨htake, hdrop⟩ := takeWhile_digits hw ('.' :: part) (by rintro _ ⟨⟩; decide)
  obtain ⟨hpart, hrest⟩ := takeWhile_digits hp [] nofun
  rw [List.append_nil] at hpart hrest
  rw [List.cons_append, parse?_eq (hw c List.mem_cons_self), ← List.cons_append, parseDigits?,
    htake, hdrop]
  simp [fraction, parseExponent?, hpart, hrest]

/-- A decimal that is written out is read back. -/
theorem parse?_plain (d : Scientific) (h : d.exponent ≤ 0) :
    parse? d.plain = some (finite false d.digits d.exponent) := by
  have hne : Nat.toDigits 10 d.digits ≠ [] := Nat.toDigits_ne_nil
  have hdigits : ∀ c ∈ Nat.toDigits 10 d.digits, isDigit c = true :=
    fun c hc => isDigit_of_mem_toDigits hc
  have hpoint : d.pointAt = (Nat.toDigits 10 d.digits).length + d.exponent := rfl
  unfold Scientific.plain
  simp only
  split
  · next hwhole =>
      have hzero : d.exponent = 0 := Int.le_antisymm h hwhole
      rw [hzero, Int.toNat_zero, List.replicate_zero, List.append_nil]
      refine parse?_digits ?_
      rw [parseNat?, if_neg, digitsValue_toDigits]
      simpa [hne] using hdigits
  · split
    · next hinside =>
        have hlength : ((Nat.toDigits 10 d.digits).drop d.pointAt.toNat).length = -d.exponent := by
          rw [List.length_drop]
          omega
        rw [parse?_point, List.take_append_drop, digitsValue_toDigits, hlength, Int.neg_neg]
        · intro hnil
          rcases List.take_eq_nil_iff.1 hnil with hzero | hnil
          · omega
          · exact hne hnil
        · exact fun c hc => hdigits c (List.mem_of_mem_take hc)
        · exact fun c hc => hdigits c (List.mem_of_mem_drop hc)
    · next hbehind =>
        have hzeros : ∀ c ∈ List.replicate (-d.pointAt).toNat '0' ++ Nat.toDigits 10 d.digits,
            isDigit c = true := by
          refine List.forall_mem_append.2 ⟨fun c hc => ?_, hdigits⟩
          rw [List.eq_of_mem_replicate hc]
          decide
        have hlength : ((List.replicate (-d.pointAt).toNat '0' ++
            Nat.toDigits 10 d.digits).length : Int) = -d.exponent := by
          rw [List.length_append, List.length_replicate]
          omega
        have hread := parse?_point (w := ['0']) nofun (List.forall_mem_singleton.2 rfl) hzeros
        rw [List.singleton_append, List.singleton_append, digitsValue_cons_zero, digitsValue_zeros,
          digitsValue_toDigits, hlength, Int.neg_neg] at hread
        exact hread

theorem free_of_splitSign {cs : List Char} (h : ∀ c ∈ (splitSign cs).2, Text.isBlank c = false) :
    ∀ c ∈ cs, Text.isBlank c = false := by
  unfold splitSign at h
  split at h
  · exact List.forall_mem_cons.2 ⟨by decide, h⟩
  · exact List.forall_mem_cons.2 ⟨by decide, h⟩
  · exact h

theorem free_of_parseExponent? {cs : List Char} {e : Int} (h : parseExponent? cs = some e) :
    ∀ c ∈ cs, Text.isBlank c = false := by
  cases cs with
  | nil => exact nofun
  | cons c cs =>
      rw [parseExponent?] at h
      split at h
      · next hmark =>
          obtain ⟨e, he, -⟩ := Option.map_eq_some_iff.1 h
          obtain ⟨n, hn, -⟩ := Option.bind_eq_some_iff.1 he
          obtain ⟨-, hdigits, -⟩ := parseNat?_eq_some hn
          refine List.forall_mem_cons.2 ⟨?_, free_of_splitSign fun d hd => ?_⟩
          · rcases hmark with rfl | rfl <;> decide
          · exact isBlank_of_isDigit (hdigits d hd)
      · cases h

theorem free_of_parseDigits? {negative : Bool} {cs : List Char} {l : Literal}
    (h : parseDigits? negative cs = some l) : ∀ c ∈ cs, Text.isBlank c = false := by
  have hrun : ∀ ds : List Char, ∀ c ∈ ds.takeWhile isDigit, Text.isBlank c = false :=
    fun ds c hc => isBlank_of_isDigit (List.mem_takeWhile_imp hc)
  have hrest : ∀ ds e, parseExponent? (fraction ds).2 = some e →
      ∀ c ∈ ds, Text.isBlank c = false := by
    intro ds e he
    have hfree := free_of_parseExponent? he
    unfold fraction at hfree
    split at hfree
    · next part =>
        refine List.forall_mem_cons.2 ⟨by decide, ?_⟩
        rw [← List.takeWhile_append_dropWhile (p := isDigit) (l := part)]
        exact List.forall_mem_append.2 ⟨hrun part, hfree⟩
    · exact hfree
  unfold parseDigits? at h
  simp only at h
  split at h
  · cases h
  · obtain ⟨e, he, -⟩ := Option.map_eq_some_iff.1 h
    rw [← List.takeWhile_append_dropWhile (p := isDigit) (l := cs)]
    exact List.forall_mem_append.2 ⟨hrun cs, hrest _ e he⟩

/-- Nothing with a blank in it is read as a number. -/
theorem free_of_parse? {cs : List Char} {l : Literal} (h : parse? cs = some l) :
    ∀ c ∈ cs, Text.isBlank c = false := by
  have hword : ∀ word ∈ ["inf", "infinity", "nan"],
      String.ofList (Text.lower (splitSign cs).2) = word →
        ∀ c ∈ (splitSign cs).2, Text.isBlank c = false := by
    intro word hmem hword c hc
    have hletters : ∀ word ∈ ["inf", "infinity", "nan"],
        (word.toList.any Text.isBlank) = false := by
      decide
    have hlower : c.toLower ∈ word.toList := by
      rw [← hword, String.toList_ofList]
      exact List.mem_map_of_mem hc
    rw [← Text.isBlank_toLower]
    exact Bool.eq_false_iff.2 (List.any_eq_false.1 (hletters word hmem) _ hlower)
  refine free_of_splitSign ?_
  unfold parse? at h
  simp only at h
  split at h
  · next heq => exact hword _ (by simp) heq
  · next heq => exact hword _ (by simp) heq
  · next heq => exact hword _ (by simp) heq
  · exact free_of_parseDigits? h

end Literal
end Decimal
end Montage
