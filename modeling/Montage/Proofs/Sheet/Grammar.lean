import Montage.Proofs.Sheet.Words

/-!
# The grammar of selectors

Which texts are selectors, and of which words.

**Input.** Any text.

**Algorithm.** A text has the words that are left when it is split at every blank and empty pieces are
dropped. A word is a name, with a point or a hash in front of it or with neither (`Segment.Spells`), and
it is read as what it spells. A text is a selector if and only if it has a word and all of its words can
be read.

**Results.**
* `Text.fields_eq_splitOnP`: the words of a text are its pieces between blanks.
* `Segment.spells_iff`: a word is spelled by its written form, and by nothing else.
* `Selector.parse_spelled`: which texts are selectors, which selector a text is, and that the written
  form of a selector that was read is read as that selector.
-/

namespace Montage

namespace Text

variable (p : Char → Bool)

theorem leadingField_eq_splitOnP (cs : List Char) : ∃ w ws, cs.splitOnP p = w :: ws ∧
    leadingField p cs = (w, ws.filter fun w => !w.isEmpty) := by
  have hcons : ∀ w ws, consWord w (List.filter (fun w => !w.isEmpty) ws) =
      (w :: ws).filter fun w => !w.isEmpty := by
    intro w ws
    cases w <;> rfl
  induction cs with
  | nil => exact ⟨[], [], List.splitOnP_nil, rfl⟩
  | cons c cs ih =>
      obtain ⟨w, ws, hsplit, hlead⟩ := ih
      rw [List.splitOnP_cons_eq_if_modifyHead, leadingField, hsplit, hlead]
      cases hc : p c with
      | true => exact ⟨[], w :: ws, rfl, by simp [hcons]⟩
      | false => exact ⟨c :: w, ws, by simp, by simp⟩

/-- The fields of a text are what is left of it when it is split at every separator and empty pieces
are dropped. -/
theorem fields_eq_splitOnP (cs : List Char) :
    fields p cs = (cs.splitOnP p).filter fun w => !w.isEmpty := by
  obtain ⟨w, ws, hsplit, hlead⟩ := leadingField_eq_splitOnP p cs
  rw [fields, hlead, hsplit]
  cases w <;> rfl

end Text

namespace Segment

/-- A name: letters, digits, underscores and hyphens of ASCII, at least one. -/
def IsName (cs : List Char) : Prop :=
  cs ≠ [] ∧ ∀ c ∈ cs, ('A' ≤ c ∧ c ≤ 'Z') ∨ ('a' ≤ c ∧ c ≤ 'z') ∨ ('0' ≤ c ∧ c ≤ '9') ∨
    c = '_' ∨ c = '-'

/-- A name with at most one mark in front of it. -/
def IsWord (cs : List Char) : Prop :=
  ∃ mark name, mark ∈ [[], ['.'], ['#']] ∧ IsName name ∧ cs = mark ++ name

/-- What a word is: the mark says of which kind. -/
inductive Spells : List Char → Segment → Prop
  | element {name : String} (h : IsName name.toList) : Spells name.toList (.element name)
  | «class» {name : String} (h : IsName name.toList) : Spells ('.' :: name.toList) (.class name)
  | id {name : String} (h : IsName name.toList) : Spells ('#' :: name.toList) (.id name)

theorem isNameChar_iff {c : Char} : isNameChar c = true ↔
    ('A' ≤ c ∧ c ≤ 'Z') ∨ ('a' ≤ c ∧ c ≤ 'z') ∨ ('0' ≤ c ∧ c ≤ '9') ∨ c = '_' ∨ c = '-' := by
  have hupper : c.isUpper = true ↔ 'A' ≤ c ∧ c ≤ 'Z' := decide_eq_true_iff
  have hlower : c.isLower = true ↔ 'a' ≤ c ∧ c ≤ 'z' :=
    Bool.and_eq_true_iff.trans (and_congr decide_eq_true_iff decide_eq_true_iff)
  have hdigit : c.isDigit = true ↔ '0' ≤ c ∧ c ≤ '9' :=
    Bool.and_eq_true_iff.trans (and_congr decide_eq_true_iff decide_eq_true_iff)
  have halpha : c.isAlpha = true ↔ c.isUpper = true ∨ c.isLower = true := Bool.or_eq_true_iff
  have halphanum : c.isAlphanum = true ↔ c.isAlpha = true ∨ c.isDigit = true := Bool.or_eq_true_iff
  rw [isNameChar, Bool.or_eq_true_iff, Bool.or_eq_true_iff, beq_iff_eq, beq_iff_eq, halphanum, halpha,
    hupper, hlower, hdigit]
  simp only [or_assoc]

theorem isNamed_iff {w : Segment} : w.IsNamed ↔ IsName w.name.toList :=
  and_congr_right fun _ => forall₂_congr fun _ _ => isNameChar_iff

/-- A word is spelled by its text. -/
theorem spells_iff {cs : List Char} {w : Segment} : Spells cs w ↔ w.IsNamed ∧ cs = w.text.toList := by
  rw [isNamed_iff]
  constructor
  · intro h
    cases h with
    | element h => exact ⟨h, rfl⟩
    | «class» h => exact ⟨h, by rw [text, String.toList_append]; rfl⟩
    | id h => exact ⟨h, by rw [text, String.toList_append]; rfl⟩
  · rintro ⟨h, rfl⟩
    cases w with
    | element name => exact .element h
    | «class» name =>
        rw [text, String.toList_append]
        exact .class h
    | id name =>
        rw [text, String.toList_append]
        exact .id h

/-- The words are the texts that spell something. -/
theorem exists_spells_iff {cs : List Char} : (∃ w, Spells cs w) ↔ IsWord cs := by
  constructor
  · rintro ⟨w, h⟩
    cases h with
    | element h => exact ⟨[], _, by simp, h, rfl⟩
    | «class» h => exact ⟨['.'], _, by simp, h, rfl⟩
    | id h => exact ⟨['#'], _, by simp, h, rfl⟩
  · rintro ⟨mark, cs, hmark, h, rfl⟩
    have hcs : cs = (String.ofList cs).toList := String.toList_ofList.symm
    rw [hcs] at h ⊢
    simp only [List.mem_cons, List.not_mem_nil, or_false] at hmark
    rcases hmark with rfl | rfl | rfl
    · exact ⟨_, .element h⟩
    · exact ⟨_, .class h⟩
    · exact ⟨_, .id h⟩

end Segment

namespace Selector

/-- A text is read as the selector whose words it spells. -/
theorem parse_eq_ok_iff_spells {text : String} {s : Selector} : parse text = .ok s ↔
    List.Forall₂ Segment.Spells (Text.words text.toList) s.segments := by
  simp only [parse_eq_ok_iff, mapM_eq_some_iff, Segment.parse?_eq_some_iff, ← Segment.spells_iff]

/-- The words of a selector that is read have names. -/
theorem isNamed_of_parse {text : String} {s : Selector} (h : parse text = .ok s) : s.IsNamed := by
  intro w hw
  obtain ⟨cs, -, hspells⟩ := exists_of_forall₂ (parse_eq_ok_iff_spells.1 h).flip hw
  exact (Segment.spells_iff.1 hspells).1

/-- The pieces of a text between its blanks, without the empty ones. -/
def pieces (text : String) : List (List Char) :=
  (text.toList.splitOnP Text.isBlank).filter fun w => !w.isEmpty

/-- A text is a selector if and only if it has a piece and all of its pieces are words. The selector is
of what the pieces spell, in their order, and its written form is read as the same selector. -/
theorem parse_spelled (text : String) :
    ((∃ s, parse text = .ok s) ↔ pieces text ≠ [] ∧ ∀ w ∈ pieces text, Segment.IsWord w) ∧
      (∀ s, parse text = .ok s ↔ List.Forall₂ Segment.Spells (pieces text) s.segments) ∧
      ∀ s, parse text = .ok s → parse s.text = .ok s := by
  have hpieces : pieces text = Text.words text.toList := (Text.fields_eq_splitOnP _ _).symm
  rw [hpieces]
  refine ⟨⟨?_, ?_⟩, fun s => parse_eq_ok_iff_spells, ?_⟩
  · rintro ⟨s, hs⟩
    have hspells := parse_eq_ok_iff_spells.1 hs
    refine ⟨?_, fun w hw => ?_⟩
    · intro hnil
      rw [hnil, List.forall₂_nil_left_iff] at hspells
      simp [segments] at hspells
    · obtain ⟨segment, -, hsegment⟩ := exists_of_forall₂ hspells hw
      exact Segment.exists_spells_iff.1 ⟨segment, hsegment⟩
  · rintro ⟨hne, hall⟩
    obtain ⟨ws, hws⟩ := exists_forall₂_iff.2 fun cs hcs => Segment.exists_spells_iff.2 (hall cs hcs)
    have hwords : ws ≠ [] := by
      rintro rfl
      exact hne (List.forall₂_nil_right_iff.1 hws)
    refine ⟨⟨ws.dropLast, ws.getLast hwords⟩, parse_eq_ok_iff_spells.2 ?_⟩
    rwa [segments, List.dropLast_append_getLast]
  · intro s hs
    have hread := parse_blanked (isNamed_of_parse hs) (List.forall_mem_nil _) (List.forall_mem_nil _)
    rwa [List.nil_append, List.append_nil, String.ofList_toList] at hread

theorem parse_spelled_wide : ∃ s, parse "cont\u2003.scene\u00a0 #hero-1\n" = .ok s ∧
    s.segments = [.element "cont", .class "scene", .id "hero-1"] ∧ parse s.text = .ok s := by
  have hread : parse "cont\u2003.scene\u00a0 #hero-1\n" =
      .ok ⟨[.element "cont", .class "scene"], .id "hero-1"⟩ := by
    decide +kernel
  exact ⟨_, hread, rfl, (parse_spelled _).2.2 _ hread⟩

/-- Two marks, a mark without a name, a sign between names, a space that is no blank, and no word. -/
example : ["..scene", "cont # hero", "vid>aud", "vid\u200baud", "\u3000"].all
    fun text => (parse text).toOption.isNone := by
  decide +kernel

end Selector
end Montage
