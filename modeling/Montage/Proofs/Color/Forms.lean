import Montage.Color.Reader
import Montage.Proofs.Text.Ends

/-!
# Forms of colors

What the text of a color looks like.

**Input.** A text that is read as a color.

**Algorithm.** The reader tells a function by its brackets. What is no function is a keyword or
hexadecimal digits, and neither has blanks inside.

**Results.**
* `Color.parse_cases`: the text of a color is a keyword, hexadecimal digits or a function.
* `Color.free_of_parse`: the text of a color without brackets has no blanks inside.
* `Color.last_of_parse`: the text of a color does not end with the letter of a unit.
-/

namespace Montage

namespace Color

variable {s : String} {cs : List Char} {color : Color}

/-! ### Digits and keywords -/

theorem isSome_of_hexDouble? {c : Char} {n : UInt8} (h : hexDouble? c = some n) :
    (Decimal.hexDigit? c).isSome = true := by
  obtain ⟨d, hd, -⟩ := Option.map_eq_some_iff.1 h
  exact Option.isSome_of_eq_some hd

theorem isSome_of_hexByte? {c d : Char} {n : UInt8} (h : hexByte? c d = some n) :
    ((Decimal.hexDigit? c).isSome = true ∨ c = '+') ∧ (Decimal.hexDigit? d).isSome = true := by
  unfold hexByte? at h
  split at h
  · next hc =>
      obtain ⟨low, hlow, -⟩ := Option.map_eq_some_iff.1 h
      exact ⟨.inr hc, Option.isSome_of_eq_some hlow⟩
  · obtain ⟨high, hhigh, h⟩ := Option.bind_eq_some_iff.1 h
    obtain ⟨low, hlow, -⟩ := Option.bind_eq_some_iff.1 h
    exact ⟨.inl (Option.isSome_of_eq_some hhigh), Option.isSome_of_eq_some hlow⟩

/-- Hexadecimal digits are written with such digits; a sign may stand in their place. -/
theorem digits_of_ofHex? (h : ofHex? cs = some color) :
    ∀ c ∈ cs, (Decimal.hexDigit? c).isSome = true ∨ c = '+' := by
  unfold ofHex? at h
  split at h
  · obtain ⟨_, hr, h⟩ := Option.bind_eq_some_iff.1 h
    obtain ⟨_, hg, h⟩ := Option.bind_eq_some_iff.1 h
    obtain ⟨_, hb, -⟩ := Option.bind_eq_some_iff.1 h
    simp only [List.forall_mem_cons]
    exact ⟨.inl (isSome_of_hexDouble? hr), .inl (isSome_of_hexDouble? hg),
      .inl (isSome_of_hexDouble? hb), nofun⟩
  · obtain ⟨_, hr, h⟩ := Option.bind_eq_some_iff.1 h
    obtain ⟨_, hg, h⟩ := Option.bind_eq_some_iff.1 h
    obtain ⟨_, hb, h⟩ := Option.bind_eq_some_iff.1 h
    obtain ⟨_, ha, -⟩ := Option.bind_eq_some_iff.1 h
    simp only [List.forall_mem_cons]
    exact ⟨.inl (isSome_of_hexDouble? hr), .inl (isSome_of_hexDouble? hg),
      .inl (isSome_of_hexDouble? hb), .inl (isSome_of_hexDouble? ha), nofun⟩
  · obtain ⟨_, hr, h⟩ := Option.bind_eq_some_iff.1 h
    obtain ⟨_, hg, h⟩ := Option.bind_eq_some_iff.1 h
    obtain ⟨_, hb, -⟩ := Option.bind_eq_some_iff.1 h
    simp only [List.forall_mem_cons]
    exact ⟨(isSome_of_hexByte? hr).1, .inl (isSome_of_hexByte? hr).2, (isSome_of_hexByte? hg).1,
      .inl (isSome_of_hexByte? hg).2, (isSome_of_hexByte? hb).1, .inl (isSome_of_hexByte? hb).2,
      nofun⟩
  · obtain ⟨_, hr, h⟩ := Option.bind_eq_some_iff.1 h
    obtain ⟨_, hg, h⟩ := Option.bind_eq_some_iff.1 h
    obtain ⟨_, hb, h⟩ := Option.bind_eq_some_iff.1 h
    obtain ⟨_, ha, -⟩ := Option.bind_eq_some_iff.1 h
    simp only [List.forall_mem_cons]
    exact ⟨(isSome_of_hexByte? hr).1, .inl (isSome_of_hexByte? hr).2, (isSome_of_hexByte? hg).1,
      .inl (isSome_of_hexByte? hg).2, (isSome_of_hexByte? hb).1, .inl (isSome_of_hexByte? hb).2,
      (isSome_of_hexByte? ha).1, .inl (isSome_of_hexByte? ha).2, nofun⟩
  · cases h

theorem isBlank_of_hexDigit? {c : Char} (h : (Decimal.hexDigit? c).isSome = true) :
    Text.isBlank c = false := by
  have hrange : 48 ≤ c.toNat ∧ c.toNat ≤ 102 := by
    unfold Decimal.hexDigit? at h
    simp only [Char.le_def, UInt32.le_iff_toNat_le] at h
    split at h
    · next hd => exact ⟨hd.1, hd.2.trans (by decide)⟩
    · split at h
      · next hd => exact ⟨le_trans (by decide) hd.1, hd.2⟩
      · split at h
        · next hd => exact ⟨le_trans (by decide) hd.1, hd.2.trans (by decide)⟩
        · cases h
  simp [Text.isBlank]
  omega

/-- The keywords that a color goes by. -/
def keywords : List String :=
  "transparent" :: namedColors.map Prod.fst

theorem mem_keywords (h : (named? s).isSome = true) : s ∈ keywords := by
  obtain ⟨n, hn⟩ := Option.isSome_iff_exists.1 h
  obtain ⟨front, back, htable, -⟩ := List.lookup_eq_some_iff.1 hn
  refine List.mem_cons_of_mem _ (List.mem_map.2 ⟨(s, n), ?_, rfl⟩)
  rw [htable]
  exact List.mem_append_right front List.mem_cons_self

/-- A keyword is spelled in small letters, and does not end with the last letter of a unit. -/
theorem keywords_spelled :
    (keywords.all fun word =>
      word.toList.all Char.isLower && word.toList.getLast? != some 'x') = true := by
  decide +kernel

theorem letters_of_keyword {word : String} (h : word ∈ keywords) :
    (∀ c ∈ word.toList, Text.isBlank c = false) ∧ 'x' ∉ word.toList.getLast? := by
  obtain ⟨hletters, hlast⟩ := Bool.and_eq_true_iff.1 (List.all_eq_true.1 keywords_spelled word h)
  refine ⟨fun c hc => ?_, bne_iff_ne.1 hlast⟩
  have hlower := Text.isLower_iff.1 (List.all_eq_true.1 hletters c hc)
  simp [Text.isBlank]
  omega

/-! ### Texts of colors -/

/-- What the text of a color can be, in small letters and without blanks around it. -/
inductive IsForm (cs : List Char) : Prop where
  | keyword (h : String.ofList (Text.lower cs) ∈ keywords)
  | digits (h : (ofHex? cs).isSome = true)
  | hash (digits : List Char) (hcs : cs = '#' :: digits) (h : (ofHex? digits).isSome = true)
  | function (hopen : '(' ∈ cs) (hclose : cs.getLast? = some ')')

theorem isForm_of_ofText? (ht : Text.IsTrimmed cs) (h : ofText? cs = some color) : IsForm cs := by
  unfold ofText? at h
  rw [ht.trim_eq] at h
  simp only at h
  split at h
  · next hword => exact .keyword (hword ▸ List.mem_cons_self)
  · split at h
    · next digits hhash =>
        exact .hash digits (Text.stripStart?_eq_some_iff.1 hhash) (Option.isSome_of_eq_some h)
    · split at h
      · next name args hcut =>
          obtain ⟨inner, hclose, hopen⟩ := Option.bind_eq_some_iff.1 hcut
          have hcs := Text.stripEnd?_eq_some hclose
          obtain ⟨hinner, -⟩ := Text.splitFirst?_eq_some hopen
          refine .function ?_ ?_
          · simp [hcs, hinner]
          · simp [hcs]
      · rcases Option.or_eq_some_iff.1 h with hhex | ⟨-, hname⟩
        · exact .digits (Option.isSome_of_eq_some hhex)
        · obtain ⟨n, hn, -⟩ := Option.map_eq_some_iff.1 hname
          exact .keyword (mem_keywords (Option.isSome_of_eq_some hn))

/-- The text of a color is a keyword, hexadecimal digits or a function. -/
theorem parse_cases (h : parse s = .ok color) : IsForm (Text.lower (Text.trim s.toList)) := by
  have ht : Text.IsTrimmed (Text.lower (Text.trim s.toList)) := (Text.isTrimmed_trim _).lower
  unfold parse at h
  simp only at h
  split at h
  · cases h
  · next text hfraction =>
      cases hread : ofText? text with
      | none =>
          rw [hread] at h
          cases h
      | some c =>
          unfold fractionalAlpha? at hfraction
          split at hfraction
          · cases hfraction
            exact isForm_of_ofText? ht hread
          · next args hcut =>
              -- The brackets are all that is looked at before an opacity is rewritten.
              obtain ⟨inner, hopen, hclose⟩ := Option.bind_eq_some_iff.1 hcut
              rw [Text.stripStart?_eq_some_iff.1 hopen, Text.stripEnd?_eq_some hclose]
              exact .function (by simp) (by rw [← List.append_assoc, List.getLast?_concat])

theorem ne_nil_of_parse (h : parse s = .ok color) : Text.trim s.toList ≠ [] := by
  intro hnil
  have hread : ofText? [] = none := by
    decide +kernel
  have hsame : fractionalAlpha? [] = some [] := by
    decide +kernel
  unfold parse at h
  rw [hnil] at h
  simp only [Text.lower, List.map_nil, hsame, hread] at h
  cases h

/-- The text of a color without brackets has no blanks inside. -/
theorem free_of_parse (h : parse s = .ok color) (hopen : '(' ∉ s.toList) :
    ∀ c ∈ Text.trim s.toList, Text.isBlank c = false := by
  intro c hc
  have hlow : c.toLower ∈ Text.lower (Text.trim s.toList) := List.mem_map_of_mem hc
  have hdigit : ∀ {digits}, (ofHex? digits).isSome = true → c.toLower ∈ digits →
      Text.isBlank c = false := by
    intro digits hhex hmem
    obtain ⟨color, hcolor⟩ := Option.isSome_iff_exists.1 hhex
    rw [← Text.isBlank_toLower]
    rcases digits_of_ofHex? hcolor _ hmem with hdigit | hplus
    · exact isBlank_of_hexDigit? hdigit
    · rw [hplus]
      decide
  cases parse_cases h with
  | keyword hword =>
      rw [← Text.isBlank_toLower, ← Text.isBlank_toLower]
      refine (letters_of_keyword hword).1 _ ?_
      rw [String.toList_ofList]
      exact List.mem_map_of_mem hlow
  | digits hhex => exact hdigit hhex hlow
  | hash digits hcs hhex =>
      rw [hcs] at hlow
      rcases List.mem_cons.1 hlow with hhash | hmem
      · rw [← Text.isBlank_toLower, hhash]
        decide
      · exact hdigit hhex hmem
  | function hmem _ =>
      obtain ⟨front, back, -, -, hs, -⟩ := Text.exists_trim s.toList
      have hbracket : '(' ∈ Text.trim s.toList := Text.mem_of_mem_lower hmem (by decide)
      exact absurd (hs ▸ List.mem_append_left back (List.mem_append_right front hbracket)) hopen

/-- The text of a color does not end with the last letter of a unit. -/
theorem last_of_parse (h : parse s = .ok color) : 'x' ∉ (Text.trim s.toList).getLast? := by
  intro hlast
  have hlow : (Text.lower (Text.trim s.toList)).getLast? = some 'x' := by
    rw [Text.lower, List.getLast?_map, hlast]
    rfl
  have hdigit : ∀ {digits}, (ofHex? digits).isSome = true → 'x' ∉ digits := by
    intro digits hhex hmem
    obtain ⟨color, hcolor⟩ := Option.isSome_iff_exists.1 hhex
    exact absurd (digits_of_ofHex? hcolor 'x' hmem) (by decide)
  cases parse_cases h with
  | keyword hword =>
      refine (letters_of_keyword hword).2 ?_
      rw [String.toList_ofList, Text.lower, List.getLast?_map, hlow]
      rfl
  | digits hhex => exact hdigit hhex (List.mem_of_getLast? hlow)
  | hash digits hcs hhex =>
      rw [hcs] at hlow
      rcases List.mem_cons.1 (List.mem_of_getLast? hlow) with hhash | hmem
      · cases hhash
      · exact hdigit hhex hmem
  | function _ hclose =>
      rw [hlow] at hclose
      cases hclose

end Color
end Montage
