import Mathlib.Data.List.TakeWhile
import Montage.Proofs.Sheet.Words

/-!
# Ends of texts

What is left of a text when it is trimmed, or when a known end is taken off.

**Input.** A text as a list of characters.

**Algorithm.** A text is its trimmed form between two runs of blanks, and the trimmed form has no
blank at either end.

**Results.**
* `Text.exists_trim`: a text around its trimmed form.
* `Text.trim_blanked`: a trimmed text is found again between blanks.
* `Text.words_trim`: trimming keeps the words.
* `Text.two_le_words`: a blank inside parts the words.
-/

namespace Montage
namespace Text

variable {cs front back : List Char}

/-- A text without a blank at either end. -/
structure IsTrimmed (cs : List Char) : Prop where
  start : ∀ c ∈ cs.head?, isBlank c = false
  stop : ∀ c ∈ cs.getLast?, isBlank c = false

theorem isTrimmed_of_free (h : ∀ c ∈ cs, isBlank c = false) : IsTrimmed cs :=
  ⟨fun c hc => h c (List.mem_of_head? hc), fun c hc => h c (List.mem_of_getLast? hc)⟩

theorem IsTrimmed.trimEnd_eq (h : IsTrimmed cs) : trimEnd cs = cs := by
  have hdrop : cs.reverse.dropWhile isBlank = cs.reverse := by
    cases hcs : cs.reverse with
    | nil => rfl
    | cons c ds =>
        refine List.dropWhile_cons_of_neg ?_
        rw [h.stop c (by rw [← List.head?_reverse, hcs]; rfl)]
        exact Bool.false_ne_true
  rw [trimEnd, hdrop, List.reverse_reverse]

theorem IsTrimmed.trim_eq (h : IsTrimmed cs) : trim cs = cs := by
  have hdrop : trimStart cs = cs := by
    cases cs with
    | nil => rfl
    | cons c ds =>
        refine List.dropWhile_cons_of_neg ?_
        rw [h.start c rfl]
        exact Bool.false_ne_true
  rw [trim, hdrop, h.trimEnd_eq]

theorem trimEnd_blanked (hb : ∀ c ∈ back, isBlank c = true) (h : IsTrimmed cs) :
    trimEnd (cs ++ back) = cs := by
  have hreverse : ∀ c ∈ back.reverse, isBlank c = true := fun c hc => hb c (List.mem_reverse.1 hc)
  rw [trimEnd, List.reverse_append, List.dropWhile_append_of_pos hreverse]
  exact h.trimEnd_eq

/-- A trimmed text is found again between blanks. -/
theorem trim_blanked (hf : ∀ c ∈ front, isBlank c = true) (hb : ∀ c ∈ back, isBlank c = true)
    (h : IsTrimmed cs) (hne : cs ≠ []) : trim (front ++ cs ++ back) = cs := by
  obtain ⟨c, ds, rfl⟩ := List.exists_cons_of_ne_nil hne
  have hstart : trimStart (front ++ (c :: ds) ++ back) = c :: ds ++ back := by
    rw [trimStart, List.append_assoc, List.dropWhile_append_of_pos hf]
    refine List.dropWhile_cons_of_neg ?_
    rw [h.start c rfl]
    exact Bool.false_ne_true
  rw [trim, hstart, trimEnd_blanked hb h]

/-- A text is its trimmed form between blanks. -/
theorem exists_trim (cs : List Char) : ∃ front back, (∀ c ∈ front, isBlank c = true) ∧
    (∀ c ∈ back, isBlank c = true) ∧ cs = front ++ trim cs ++ back ∧ IsTrimmed (trim cs) := by
  have hstart : cs = cs.takeWhile isBlank ++ trimStart cs := List.takeWhile_append_dropWhile.symm
  have hstop : trimStart cs =
      trim cs ++ ((trimStart cs).reverse.takeWhile isBlank).reverse := by
    rw [← List.reverse_inj, List.reverse_append, List.reverse_reverse, trim, trimEnd,
      List.reverse_reverse, List.takeWhile_append_dropWhile]
  have hblank : ∀ ds : List Char, ∀ c ∈ ds.takeWhile isBlank, isBlank c = true :=
    fun ds c hc => List.mem_takeWhile_imp hc
  have hhead : ∀ ds : List Char, ∀ c ∈ (ds.dropWhile isBlank).head?, isBlank c = false := by
    intro ds c hc
    have := List.head?_dropWhile_not isBlank ds
    rw [hc] at this
    simpa using this
  refine ⟨cs.takeWhile isBlank, ((trimStart cs).reverse.takeWhile isBlank).reverse, hblank cs,
    fun c hc => hblank (trimStart cs).reverse c (List.mem_reverse.1 hc), ?_, ?_, ?_⟩
  · rw [List.append_assoc, ← hstop]
    exact hstart
  · intro c hc
    refine hhead cs c ?_
    change c ∈ (trimStart cs).head?
    rw [hstop]
    cases htrim : trim cs with
    | nil =>
        rw [htrim] at hc
        cases hc
    | cons d ds =>
        rw [htrim] at hc
        exact hc
  · intro c hc
    rw [trim, trimEnd, List.getLast?_reverse] at hc
    exact hhead _ c hc

theorem isTrimmed_trim (cs : List Char) : IsTrimmed (trim cs) := by
  obtain ⟨_, _, _, _, _, h⟩ := exists_trim cs
  exact h

theorem trim_trimmed (s : String) :
    trim (String.ofList (trim s.toList)).toList = trim s.toList := by
  rw [String.toList_ofList, (isTrimmed_trim s.toList).trim_eq]

/-! ### Words -/

theorem words_trim (cs : List Char) : words (trim cs) = words cs := by
  obtain ⟨front, back, hfront, hback, hcs, -⟩ := exists_trim cs
  have hwords := fields_blanked (p := isBlank) hfront hback (trim cs)
  rw [← hcs] at hwords
  exact hwords.symm

theorem words_of_free {cs : List Char} (hne : trim cs ≠ []) (h : ∀ c ∈ trim cs, isBlank c = false) :
    words cs = [trim cs] := by
  rw [← words_trim]
  exact fields_of_word hne h

/-- A text with a blank inside has more than one word. -/
theorem two_le_words {cs : List Char} (h : ∃ c ∈ trim cs, isBlank c = true) :
    2 ≤ (words cs).length := by
  obtain ⟨c, hc, hblank⟩ := h
  obtain ⟨front, back, hcs⟩ := List.append_of_mem hc
  have ht := isTrimmed_trim cs
  have hword : ∀ ds, (∃ d ∈ ds, isBlank d = false) → 1 ≤ (fields isBlank ds).length := by
    rintro ds ⟨d, hd, hfree⟩
    obtain ⟨w, hw, -⟩ := exists_field_of_mem hd hfree
    exact List.length_pos_of_mem hw
  have hfront : ∃ d ∈ front, isBlank d = false := by
    cases front with
    | nil =>
        have := ht.start c (by rw [hcs]; rfl)
        rw [hblank] at this
        cases this
    | cons d ds => exact ⟨d, List.mem_cons_self, ht.start d (by rw [hcs]; rfl)⟩
  have hback : ∃ d ∈ back, isBlank d = false := by
    cases hlast : back.getLast? with
    | none =>
        rw [List.getLast?_eq_none_iff.1 hlast] at hcs
        have := ht.stop c (by rw [hcs, List.getLast?_concat]; rfl)
        rw [hblank] at this
        cases this
    | some d =>
        refine ⟨d, List.mem_of_getLast? hlast, ht.stop d ?_⟩
        rw [hcs, List.getLast?_append, List.getLast?_cons, hlast]
        rfl
  have := hword front hfront
  have := hword back hback
  rw [← words_trim, words, hcs, fields_append hblank, List.length_append]
  omega

theorem words_spaced (a b : String) :
    words (a ++ " " ++ b).toList = words a.toList ++ words b.toList := by
  have hblank : isBlank ' ' = true := by
    decide
  rw [String.toList_append, String.toList_append, List.append_assoc]
  exact fields_append hblank a.toList b.toList

/-! ### Known ends -/

theorem stripEnd?_append (front back : List Char) :
    stripEnd? back (front ++ back) = some front := by
  have hreverse : stripStart? back.reverse (front ++ back).reverse = some front.reverse :=
    stripStart?_eq_some_iff.2 List.reverse_append
  rw [stripEnd?, hreverse, Option.map_some, List.reverse_reverse]

theorem stripStart?_eq_none {d : Char} (h : d ∉ cs.head?) : stripStart? [d] cs = none := by
  cases hcs : stripStart? [d] cs with
  | none => rfl
  | some rest =>
      rw [stripStart?_eq_some_iff.1 hcs] at h
      exact absurd rfl h

theorem stripEnd?_eq_none {d : Char} (h : d ∉ cs.getLast?) : stripEnd? [d] cs = none := by
  cases hcs : stripEnd? [d] cs with
  | none => rfl
  | some rest =>
      rw [stripEnd?_eq_some hcs] at h
      simp at h

/-! ### Letter case -/

theorem lower_append (cs ds : List Char) : lower (cs ++ ds) = lower cs ++ lower ds :=
  List.map_append

theorem isUpper_iff {c : Char} : c.isUpper = true ↔ 65 ≤ c.toNat ∧ c.toNat ≤ 90 := by
  change decide (c.val ≥ 'A'.val ∧ c.val ≤ 'Z'.val) = true ↔ _
  simp [UInt32.le_iff_toNat_le]

theorem isLower_iff {c : Char} : c.isLower = true ↔ 97 ≤ c.toNat ∧ c.toNat ≤ 122 := by
  change (decide (c.val ≥ 'a'.val) && decide (c.val ≤ 'z'.val)) = true ↔ _
  simp [UInt32.le_iff_toNat_le]

/-- Nothing but capital letters has a lower case of its own. -/
theorem lower_eq_self (h : ∀ c ∈ cs, c.isUpper = false) : lower cs = cs := by
  refine (List.map_congr_left fun c hc => ?_).trans (List.map_id cs)
  exact dif_neg (of_decide_eq_false (h c hc))

theorem toLower_eq_self {c : Char} (h : c.isUpper = false) : c.toLower = c :=
  List.head_eq_of_cons_eq (@lower_eq_self [c] (List.forall_mem_singleton.2 h))

theorem exists_capital {c : Char} (h : c.isUpper = true) : ∃ n < 26, c = Char.ofNat (65 + n) := by
  have hrange := isUpper_iff.1 h
  refine ⟨c.toNat - 65, by omega, ?_⟩
  rw [Nat.add_sub_cancel' hrange.1, Char.ofNat_toNat]

theorem isUpper_of_isBlank {c : Char} (h : isBlank c = true) : c.isUpper = false := by
  have hcapital : ∀ n < 26, isBlank (Char.ofNat (65 + n)) = false := by
    decide
  refine Bool.eq_false_iff.2 fun hupper => ?_
  obtain ⟨n, hn, rfl⟩ := exists_capital hupper
  rw [hcapital n hn] at h
  cases h

theorem isBlank_toLower (c : Char) : isBlank c.toLower = isBlank c := by
  have hcapital : ∀ n < 26, isBlank (Char.ofNat (65 + n)).toLower = isBlank (Char.ofNat (65 + n)) := by
    decide
  by_cases hupper : c.isUpper = true
  · obtain ⟨n, hn, rfl⟩ := exists_capital hupper
    exact hcapital n hn
  · rw [toLower_eq_self (Bool.eq_false_iff.2 hupper)]

theorem mem_of_mem_lower {c : Char} {cs : List Char} (h : c ∈ lower cs)
    (hc : ∀ n < 26, (Char.ofNat (65 + n)).toLower ≠ c) : c ∈ cs := by
  obtain ⟨d, hd, rfl⟩ := List.mem_map.1 h
  by_cases hupper : d.isUpper = true
  · obtain ⟨n, hn, rfl⟩ := exists_capital hupper
    exact absurd rfl (hc n hn)
  · rwa [toLower_eq_self (Bool.eq_false_iff.2 hupper)]

theorem IsTrimmed.lower {cs : List Char} (h : IsTrimmed cs) : IsTrimmed (lower cs) := by
  constructor
  · intro c hc
    rw [Text.lower, List.head?_map] at hc
    obtain ⟨d, hd, rfl⟩ := Option.map_eq_some_iff.1 hc
    rw [isBlank_toLower, h.start d hd]
  · intro c hc
    rw [Text.lower, List.getLast?_map] at hc
    obtain ⟨d, hd, rfl⟩ := Option.map_eq_some_iff.1 hc
    rw [isBlank_toLower, h.stop d hd]

end Text
end Montage
