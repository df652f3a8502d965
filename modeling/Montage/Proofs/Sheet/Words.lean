import Mathlib.Data.List.Basic
import Montage.Proofs.Lists
import Montage.Sheet.Basic

/-!
# Selectors are read back

The written form of a selector is read as that selector, with blanks around it or without.

**Input.** Selectors whose words have names.

**Algorithm.** Blanks cut a text into its words, wherever they stand; commas cut a head into its
selectors.

**Results.**
* `Text.fields_append`, `Text.fields_intercalate`: fields of texts that are put together.
* `Segment.parse?_eq_some_iff`: a word is read if and only if it is the written form of a word.
* `Selector.parse_blanked`: a selector is read back.
* `Sheet.selectors_intercalate`: so is a list of them.
-/

namespace Montage

namespace Text

variable {p : Char → Bool}

theorem leadingField_append {c : Char} (hc : p c = true) (a b : List Char) :
    leadingField p (a ++ c :: b) =
      ((leadingField p a).1, (leadingField p a).2 ++ fields p b) := by
  have happend : ∀ w ws, consWord w (ws ++ fields p b) = consWord w ws ++ fields p b := by
    intro w ws
    cases w <;> rfl
  induction a with
  | nil => simp [leadingField, hc, fields]
  | cons d a ih =>
      rw [List.cons_append, leadingField, leadingField, ih]
      dsimp only
      split
      · rw [happend]
      · rfl

/-- A separator cuts a text into the fields before it and the fields after it. -/
theorem fields_append {c : Char} (hc : p c = true) (a b : List Char) :
    fields p (a ++ c :: b) = fields p a ++ fields p b := by
  unfold fields
  rw [leadingField_append hc]
  cases (leadingField p a).1 <;> rfl

theorem fields_cons {c : Char} (hc : p c = true) (cs : List Char) : fields p (c :: cs) = fields p cs :=
  fields_append hc [] cs

theorem fields_of_separators {cs : List Char} (h : ∀ c ∈ cs, p c = true) : fields p cs = [] := by
  induction cs with
  | nil => rfl
  | cons c cs ih =>
      obtain ⟨hc, hcs⟩ := List.forall_mem_cons.1 h
      rw [fields_cons hc, ih hcs]

theorem fields_of_word {w : List Char} (hne : w ≠ []) (h : ∀ c ∈ w, p c = false) :
    fields p w = [w] := by
  have hlead : leadingField p w = (w, []) := by
    clear hne
    induction w with
    | nil => rfl
    | cons c w ih =>
        obtain ⟨hc, hw⟩ := List.forall_mem_cons.1 h
        rw [leadingField, ih hw]
        simp [hc]
  rw [fields, hlead]
  cases w with
  | nil => exact absurd rfl hne
  | cons c w => rfl

/-- Separators around a text do not change its fields. -/
theorem fields_blanked {front back : List Char} (hf : ∀ c ∈ front, p c = true)
    (hb : ∀ c ∈ back, p c = true) (cs : List Char) : fields p (front ++ cs ++ back) = fields p cs := by
  have hfront : ∀ {front : List Char}, (∀ c ∈ front, p c = true) → ∀ cs,
      fields p (front ++ cs) = fields p cs := by
    intro front hf cs
    induction front with
    | nil => rfl
    | cons c front ih =>
        obtain ⟨hc, hfront⟩ := List.forall_mem_cons.1 hf
        rw [List.cons_append, fields_cons hc, ih hfront]
  rw [List.append_assoc, hfront hf]
  cases back with
  | nil => rw [List.append_nil]
  | cons c back =>
      obtain ⟨hc, hback⟩ := List.forall_mem_cons.1 hb
      rw [fields_append hc, fields_of_separators hback, List.append_nil]

/-- Words with a separator between them are the fields of their text. -/
theorem fields_intercalate {c : Char} (hc : p c = true) {ws : List (List Char)}
    (h : ∀ w ∈ ws, w ≠ [] ∧ ∀ e ∈ w, p e = false) : fields p ([c].intercalate ws) = ws := by
  induction ws with
  | nil => rfl
  | cons w ws ih =>
      obtain ⟨⟨hne, hw⟩, hws⟩ := List.forall_mem_cons.1 h
      cases ws with
      | nil => simpa using fields_of_word hne hw
      | cons v ws =>
          rw [List.intercalate_cons_cons, List.append_assoc, List.singleton_append, fields_append hc,
            fields_of_word hne hw, ih hws, List.singleton_append]

theorem isBlank_of_isAsciiBlank {c : Char} (h : isAsciiBlank c = true) : isBlank c = true := by
  have hmem : c ∈ [' ', '\t', '\n', '\x0c', '\r'] := by simpa [isAsciiBlank, or_assoc] using h
  exact List.all_eq_true.1 (by decide) c hmem

theorem exists_intercalate_cons (sep w : List Char) (ws : List (List Char)) :
    ∃ back, sep.intercalate (w :: ws) = w ++ back := by
  cases ws with
  | nil => exact ⟨[], by simp⟩
  | cons v ws =>
      refine ⟨sep ++ sep.intercalate (v :: ws), ?_⟩
      rw [List.intercalate_cons_cons, List.append_assoc]

theorem mem_intercalate {sep : List Char} {ws : List (List Char)} {c : Char}
    (h : c ∈ sep.intercalate ws) : c ∈ sep ∨ ∃ w ∈ ws, c ∈ w := by
  induction ws with
  | nil => exact absurd h List.not_mem_nil
  | cons w ws ih =>
      cases ws with
      | nil => exact Or.inr ⟨w, List.mem_cons_self, by simpa using h⟩
      | cons v ws =>
          rw [List.intercalate_cons_cons, List.append_assoc, List.mem_append, List.mem_append] at h
          rcases h with h | h | h
          · exact Or.inr ⟨w, List.mem_cons_self, h⟩
          · exact Or.inl h
          · exact (ih h).imp_right fun ⟨v, hv, hc⟩ => ⟨v, List.mem_cons_of_mem w hv, hc⟩

theorem mem_leadingField {cs : List Char} {c : Char} (h : c ∈ cs) (hc : p c = false) :
    c ∈ (leadingField p cs).1 ∨ ∃ w ∈ (leadingField p cs).2, c ∈ w := by
  induction cs with
  | nil => exact absurd h List.not_mem_nil
  | cons d cs ih =>
      rw [leadingField]
      dsimp only
      cases hd : p d with
      | true =>
          rw [if_pos rfl]
          have hmem : c ∈ cs := by
            rcases List.mem_cons.1 h with rfl | h
            · exact Bool.noConfusion (hc.symm.trans hd)
            · exact h
          refine Or.inr ?_
          rcases ih hmem with hw | ⟨w, hw, hcw⟩
          · exact ⟨_, mem_consWord.2 (Or.inl ⟨rfl, List.ne_nil_of_mem hw⟩), hw⟩
          · exact ⟨w, mem_consWord.2 (Or.inr hw), hcw⟩
      | false =>
          rw [if_neg Bool.false_ne_true]
          rcases List.mem_cons.1 h with rfl | h
          · exact Or.inl List.mem_cons_self
          · exact (ih h).imp_left (List.mem_cons_of_mem d)

/-- A character that is no separator stands in a field. -/
theorem exists_field_of_mem {cs : List Char} {c : Char} (h : c ∈ cs) (hc : p c = false) :
    ∃ w ∈ fields p cs, c ∈ w := by
  rcases mem_leadingField h hc with hw | ⟨w, hw, hcw⟩
  · exact ⟨_, mem_consWord.2 (Or.inl ⟨rfl, List.ne_nil_of_mem hw⟩), hw⟩
  · exact ⟨w, mem_consWord.2 (Or.inr hw), hcw⟩

variable {sep : Char}

/-- A character that is not cut at stands in a piece. -/
theorem exists_piece_of_mem {cs : List Char} {c : Char} (h : c ∈ cs) (hc : c ≠ sep) :
    ∃ w ∈ splitAll sep cs, c ∈ w := by
  induction cs with
  | nil => exact absurd h List.not_mem_nil
  | cons d cs ih =>
      rw [splitAll]
      split
      · next hd =>
          have hmem : c ∈ cs := (List.mem_cons.1 h).resolve_left fun hcd => hc (hcd.trans hd)
          obtain ⟨w, hw, hcw⟩ := ih hmem
          exact ⟨w, List.mem_cons_of_mem [] hw, hcw⟩
      · split
        · next heq => exact absurd heq (splitAll_ne_nil sep cs)
        · next v ws heq =>
            rcases List.mem_cons.1 h with rfl | hmem
            · exact ⟨c :: v, List.mem_cons_self, List.mem_cons_self⟩
            · obtain ⟨w, hw, hcw⟩ := ih hmem
              rw [heq] at hw
              rcases List.mem_cons.1 hw with rfl | hw
              · exact ⟨d :: w, List.mem_cons_self, List.mem_cons_of_mem d hcw⟩
              · exact ⟨w, List.mem_cons_of_mem _ hw, hcw⟩

theorem splitAll_of_notMem {w : List Char} (h : sep ∉ w) : splitAll sep w = [w] := by
  induction w with
  | nil => rfl
  | cons c w ih =>
      have hc : c ≠ sep := fun hc => h (hc ▸ List.mem_cons_self)
      rw [splitAll, if_neg hc, ih fun hw => h (List.mem_cons_of_mem c hw)]

theorem splitAll_append {w : List Char} (h : sep ∉ w) (cs : List Char) :
    splitAll sep (w ++ sep :: cs) = w :: splitAll sep cs := by
  induction w with
  | nil => rw [List.nil_append, splitAll, if_pos rfl]
  | cons c w ih =>
      have hc : c ≠ sep := fun hc => h (hc ▸ List.mem_cons_self)
      rw [List.cons_append, splitAll, if_neg hc, ih fun hw => h (List.mem_cons_of_mem c hw)]

end Text

namespace Segment

/-- The name in a word. -/
def name : Segment → String
  | element name => name
  | .class name => name
  | .id name => name

/-- The name in a word is a nonempty text of name characters. -/
def IsNamed (w : Segment) : Prop :=
  w.name.toList ≠ [] ∧ ∀ c ∈ w.name.toList, isNameChar c = true

instance (w : Segment) : Decidable w.IsNamed :=
  @instDecidableAnd _ _ _ (List.decidableBAll _ _)

theorem name?_eq_some_iff {cs : List Char} {name : String} : name? cs = some name ↔
    (name.toList ≠ [] ∧ ∀ c ∈ name.toList, isNameChar c = true) ∧ cs = name.toList := by
  constructor
  · intro h
    rw [name?] at h
    split at h
    · next hall =>
        obtain rfl := Option.some.inj h
        rw [String.toList_ofList]
        exact ⟨by simpa using hall, rfl⟩
    · cases h
  · rintro ⟨⟨hne, hall⟩, rfl⟩
    rw [name?, if_pos (by simpa [hne] using hall), String.ofList_toList]

/-- A word is read back. -/
theorem parse?_text {w : Segment} (h : w.IsNamed) : parse? w.text.toList = some w := by
  have hname := name?_eq_some_iff.2 ⟨h, rfl⟩
  cases w with
  | element name =>
      have hfirst : ∀ c cs, name.toList = c :: cs → isNameChar c = true :=
        fun c cs hcs => h.2 c (hcs ▸ List.mem_cons_self)
      rw [text, parse?.eq_def]
      split
      · next heq => exact absurd (hfirst _ _ heq) (by decide)
      · next heq => exact absurd (hfirst _ _ heq) (by decide)
      · exact congrArg (Option.map element) hname
  | «class» name =>
      rw [text, String.toList_append]
      exact congrArg (Option.map Segment.class) hname
  | id name =>
      rw [text, String.toList_append]
      exact congrArg (Option.map Segment.id) hname

/-- A word is read if and only if it is the written form of a word with a name. -/
theorem parse?_eq_some_iff {cs : List Char} {w : Segment} :
    parse? cs = some w ↔ w.IsNamed ∧ cs = w.text.toList := by
  constructor
  · intro h
    rw [parse?.eq_def] at h
    split at h
    · obtain ⟨name, hname, rfl⟩ := Option.map_eq_some_iff.1 h
      obtain ⟨hnamed, rfl⟩ := name?_eq_some_iff.1 hname
      exact ⟨hnamed, by rw [text, String.toList_append]; rfl⟩
    · obtain ⟨name, hname, rfl⟩ := Option.map_eq_some_iff.1 h
      obtain ⟨hnamed, rfl⟩ := name?_eq_some_iff.1 hname
      exact ⟨hnamed, by rw [text, String.toList_append]; rfl⟩
    · obtain ⟨name, hname, rfl⟩ := Option.map_eq_some_iff.1 h
      obtain ⟨hnamed, rfl⟩ := name?_eq_some_iff.1 hname
      exact ⟨hnamed, rfl⟩
  · rintro ⟨h, rfl⟩
    exact parse?_text h

/-- The characters of a word: those of names, and the mark of a class or of an id in front. -/
theorem mem_text {w : Segment} (h : w.IsNamed) {c : Char} (hc : c ∈ w.text.toList) :
    isNameChar c = true ∨ c = '.' ∨ c = '#' := by
  cases w with
  | element name => exact Or.inl (h.2 c hc)
  | «class» name =>
      rw [text, String.toList_append, List.mem_append] at hc
      rcases hc with hc | hc
      · exact Or.inr (Or.inl (by simpa using hc))
      · exact Or.inl (h.2 c hc)
  | id name =>
      rw [text, String.toList_append, List.mem_append] at hc
      rcases hc with hc | hc
      · exact Or.inr (Or.inr (by simpa using hc))
      · exact Or.inl (h.2 c hc)

theorem text_ne_nil {w : Segment} (h : w.IsNamed) : w.text.toList ≠ [] := by
  intro hnil
  have hparse := parse?_text h
  rw [hnil] at hparse
  exact absurd hparse (by simp [parse?, name?])

theorem toNat_of_isNameChar {c : Char} (h : isNameChar c = true) :
    0x2D ≤ c.toNat ∧ c.toNat ≤ 0x7A := by
  rw [isNameChar, Bool.or_eq_true_iff, Bool.or_eq_true_iff, beq_iff_eq, beq_iff_eq] at h
  rcases h with (halphanum | rfl) | rfl
  · rcases Bool.or_eq_true_iff.1 halphanum with halpha | hdigit
    · rcases Bool.or_eq_true_iff.1 halpha with hupper | hlower
      · have hrange : 65 ≤ c.toNat ∧ c.toNat ≤ 90 := of_decide_eq_true hupper
        omega
      · have hrange := Bool.and_eq_true_iff.1 hlower
        have hleft : 97 ≤ c.toNat := of_decide_eq_true hrange.1
        have hright : c.toNat ≤ 122 := of_decide_eq_true hrange.2
        omega
    · have hrange := Bool.and_eq_true_iff.1 hdigit
      have hleft : 48 ≤ c.toNat := of_decide_eq_true hrange.1
      have hright : c.toNat ≤ 57 := of_decide_eq_true hrange.2
      omega
  · decide
  · decide

theorem isBlank_of_isNameChar {c : Char} (h : isNameChar c = true) : Text.isBlank c = false := by
  have hnat := toNat_of_isNameChar h
  simp [Text.isBlank]
  omega

/-- No blank, no comma and no curly bracket stands in a word. -/
theorem isBlank_of_mem_text {w : Segment} (h : w.IsNamed) {c : Char} (hc : c ∈ w.text.toList) :
    Text.isBlank c = false := by
  rcases mem_text h hc with hname | rfl | rfl
  · exact isBlank_of_isNameChar hname
  · decide
  · decide

end Segment

namespace Selector

/-- The words of a selector have names. -/
def IsNamed (s : Selector) : Prop :=
  ∀ w ∈ s.segments, w.IsNamed

instance (s : Selector) : Decidable s.IsNamed :=
  inferInstanceAs (Decidable (∀ w ∈ s.segments, w.IsNamed))

theorem toList_text (s : Selector) :
    s.text.toList = [' '].intercalate (s.segments.map fun w => w.text.toList) := by
  rw [text, String.toList_intercalate, List.map_map]
  rfl

theorem words_blanked {s : Selector} (h : s.IsNamed) {front back : List Char}
    (hf : ∀ c ∈ front, Text.isBlank c = true) (hb : ∀ c ∈ back, Text.isBlank c = true) :
    Text.words (front ++ s.text.toList ++ back) = s.segments.map fun w => w.text.toList := by
  rw [Text.words, Text.fields_blanked hf hb, toList_text]
  refine Text.fields_intercalate (by decide) fun v hv => ?_
  obtain ⟨w, hw, rfl⟩ := List.mem_map.1 hv
  exact ⟨Segment.text_ne_nil (h w hw), fun c => Segment.isBlank_of_mem_text (h w hw)⟩

theorem mapM_parse?_text {ws : List Segment} (h : ∀ w ∈ ws, w.IsNamed) :
    (ws.map fun w => w.text.toList).mapM Segment.parse? = some ws := by
  rw [mapM_eq_some_iff, List.forall₂_map_left_iff, List.forall₂_same]
  exact fun w hw => Segment.parse?_text (h w hw)

theorem segments_of_ofSegments? {ws : List Segment} {s : Selector} (h : ofSegments? ws = some s) :
    ws = s.segments := by
  obtain ⟨subject, hlast, rfl⟩ := Option.map_eq_some_iff.1 h
  rw [segments, List.dropLast_append_getLast? subject hlast]

/-- The words of a text are read one by one. -/
theorem parse_eq_ok_iff {text : String} {s : Selector} :
    parse text = .ok s ↔ (Text.words text.toList).mapM Segment.parse? = some s.segments := by
  rw [parse]
  constructor
  · intro h
    split at h
    · cases h
    · next words hwords =>
        split at h
        · next selector hselector =>
            obtain rfl := Except.ok.inj h
            rw [hwords, segments_of_ofSegments? hselector]
        · cases h
  · intro h
    rw [h]
    dsimp only
    rw [ofSegments?_segments]

/-- A selector is read back, with blanks around it or without. -/
theorem parse_blanked {s : Selector} (h : s.IsNamed) {front back : List Char}
    (hf : ∀ c ∈ front, Text.isBlank c = true) (hb : ∀ c ∈ back, Text.isBlank c = true) :
    parse (String.ofList (front ++ s.text.toList ++ back)) = .ok s := by
  rw [parse_eq_ok_iff, String.toList_ofList, words_blanked h hf hb, mapM_parse?_text h]

/-- A selector does not begin with a blank. -/
theorem exists_text_cons {s : Selector} (h : s.IsNamed) :
    ∃ c cs, s.text.toList = c :: cs ∧ Text.isBlank c = false := by
  obtain ⟨w, ws, hws⟩ := List.exists_cons_of_ne_nil
    (List.append_ne_nil_of_right_ne_nil s.ancestors (List.cons_ne_nil s.subject []))
  have hw : w.IsNamed := h w (by rw [segments, hws]; exact List.mem_cons_self)
  obtain ⟨c, cs, hcs⟩ := List.exists_cons_of_ne_nil (Segment.text_ne_nil hw)
  obtain ⟨back, hback⟩ :=
    Text.exists_intercalate_cons [' '] w.text.toList (ws.map fun w => w.text.toList)
  refine ⟨c, cs ++ back, ?_, Segment.isBlank_of_mem_text hw (hcs ▸ List.mem_cons_self)⟩
  rw [toList_text, segments, hws, List.map_cons, hback, hcs, List.cons_append]

/-- The characters of a selector. -/
theorem mem_text {s : Selector} (h : s.IsNamed) {c : Char} (hc : c ∈ s.text.toList) :
    Segment.isNameChar c = true ∨ c = '.' ∨ c = '#' ∨ c = ' ' := by
  rw [toList_text] at hc
  rcases Text.mem_intercalate hc with hc | ⟨v, hv, hc⟩
  · exact Or.inr (Or.inr (Or.inr (List.mem_singleton.1 hc)))
  · obtain ⟨w, hw, rfl⟩ := List.mem_map.1 hv
    rcases Segment.mem_text (h w hw) hc with hc | hc | hc
    · exact Or.inl hc
    · exact Or.inr (Or.inl hc)
    · exact Or.inr (Or.inr (Or.inl hc))

/-- The characters of a text that is a selector. -/
theorem mem_of_parse_eq_ok {text : String} {s : Selector} (h : parse text = .ok s) {c : Char}
    (hc : c ∈ text.toList) :
    Text.isBlank c = true ∨ Segment.isNameChar c = true ∨ c = '.' ∨ c = '#' := by
  cases hblank : Text.isBlank c with
  | true => exact Or.inl rfl
  | false =>
      refine Or.inr ?_
      obtain ⟨w, hw, hcw⟩ := Text.exists_field_of_mem hc hblank
      obtain ⟨v, -, hv⟩ := exists_of_forall₂ (mapM_eq_some_iff.1 (parse_eq_ok_iff.1 h)) hw
      obtain ⟨hnamed, rfl⟩ := Segment.parse?_eq_some_iff.1 hv
      exact Segment.mem_text hnamed hcw

end Selector

namespace Sheet

/-- Selectors with a comma and a blank between them are read back. -/
theorem selectors_intercalate {ss : List Selector} (hne : ss ≠ []) (h : ∀ s ∈ ss, s.IsNamed)
    {front back : List Char} (hf : ∀ c ∈ front, Text.isBlank c = true)
    (hb : ∀ c ∈ back, Text.isBlank c = true) :
    selectors (front ++ [',', ' '].intercalate (ss.map fun s => s.text.toList) ++ back) = .ok ss := by
  have hblank : ∀ {cs : List Char}, (∀ c ∈ cs, Text.isBlank c = true) → ',' ∉ cs :=
    fun hcs hc => absurd (hcs ',' hc) (by decide)
  induction ss generalizing front with
  | nil => exact absurd rfl hne
  | cons s ss ih =>
      obtain ⟨hs, hss⟩ := List.forall_mem_cons.1 h
      have hcomma : ',' ∉ s.text.toList := fun hc => absurd (Selector.mem_text hs hc) (by decide)
      cases ss with
      | nil =>
          have hpiece : ',' ∉ front ++ s.text.toList ++ back := by
            simp [hblank hf, hcomma, hblank hb]
          rw [List.map_singleton, List.intercalate_singleton, selectors,
            Text.splitAll_of_notMem hpiece, List.mapM_cons, Selector.parse_blanked hs hf hb]
          rfl
      | cons t ss =>
          have hpiece : ',' ∉ front ++ s.text.toList ++ [] := by simp [hblank hf, hcomma]
          have hspace : ∀ c ∈ [' '], Text.isBlank c = true := List.forall_mem_singleton.2 (by decide)
          have hmore := ih (List.cons_ne_nil t ss) hss hspace
          have htext : front ++ [',', ' '].intercalate ((s :: t :: ss).map fun s => s.text.toList) ++
              back = (front ++ s.text.toList ++ []) ++ ',' ::
                ([' '] ++ [',', ' '].intercalate ((t :: ss).map fun s => s.text.toList) ++ back) := by
            simp [List.intercalate_cons_cons]
          rw [htext, selectors, Text.splitAll_append hpiece, List.mapM_cons,
            Selector.parse_blanked hs hf (by simp)]
          rw [selectors] at hmore
          rw [hmore]
          rfl

/-- The characters of a list of selectors. -/
theorem selectors_chars {cs : List Char} {ss : List Selector} (h : selectors cs = .ok ss) :
    ∀ c ∈ cs, c = ',' ∨ Text.isBlank c = true ∨ Segment.isNameChar c = true ∨ c = '.' ∨ c = '#' := by
  intro c hc
  by_cases hcomma : c = ','
  · exact Or.inl hcomma
  · obtain ⟨w, hw, hcw⟩ := Text.exists_piece_of_mem hc hcomma
    obtain ⟨s, -, hs⟩ := exists_of_forall₂ (mapM_eq_ok_iff.1 h) hw
    exact Or.inr (Selector.mem_of_parse_eq_ok hs (String.toList_ofList.symm ▸ hcw))

end Sheet
end Montage
