import Montage.Proofs.Color.Forms
import Montage.Style.Declaration

/-!
# Borders of fonts

A border is declared as a whole, or its color and its width are declared apart.

**Input.** A color and a width that are declared apart, and a declaration of both.

**Algorithm.** The words of a border are its color and its width. A width is one word, and no color
is read as a width.

**Results.**
* `Declaration.declare_border`: a border sets its color and its width if its color is one word; else
  it is refused.
* `Declaration.border_refused`: such a color may well be declared apart.
-/

namespace Montage

variable {π : Type} [PixelCount π]

/-! ### Widths -/

/-- A length in pixels is a number before its unit. -/
theorem Length.parse_pixel {s : String} {n : π} (h : Length.parse s = .ok (.pixel n)) :
    ∃ number, Text.trim s.toList = number ++ ['p', 'x'] ∧ (Length.number? number).isSome = true := by
  unfold Length.parse at h
  simp only at h
  split at h
  · cases h
  · split at h
    · next l hfound =>
        cases h
        obtain ⟨⟨unit, make⟩, hunit, hread⟩ := List.exists_of_findSome?_eq_some hfound
        obtain ⟨number, hstrip, hmake⟩ := Option.map_eq_some_iff.1 hread
        obtain ⟨x, hx, hlength⟩ := Option.map_eq_some_iff.1 hmake
        refine ⟨number, ?_, Option.isSome_of_eq_some hx⟩
        -- All units but one make a share.
        simp only [units, List.mem_cons, List.not_mem_nil, or_false, Prod.mk.injEq] at hunit
        rcases hunit with ⟨rfl, rfl⟩ | ⟨rfl, rfl⟩ | ⟨rfl, rfl⟩ | ⟨rfl, rfl⟩ | ⟨rfl, rfl⟩ | ⟨rfl, rfl⟩
        any_goals cases hlength
        have hunit : "px".toList = ['p', 'x'] := by
          decide
        rw [hunit] at hstrip
        exact Text.stripEnd?_eq_some hstrip
    · cases h

namespace Grammar

/-- A length in pixels is one word, which ends with the letter of its unit. -/
theorem word_of_pixels? {s : String} {n : π} (h : pixels? s = some n) :
    (∀ c ∈ Text.trim s.toList, Text.isBlank c = false) ∧
      (Text.trim s.toList).getLast? = some 'x' := by
  obtain ⟨l, hl, hn⟩ := Option.bind_eq_some_iff.1 h
  obtain ⟨number, htext, hnumber⟩ : ∃ number, Text.trim s.toList = number ++ ['p', 'x'] ∧
      (Length.number? number).isSome = true := by
    cases l <;> cases hn
    cases hparse : Length.parse (π := π) s with
    | error e =>
        rw [hparse] at hl
        cases hl
    | ok l =>
        rw [hparse] at hl
        cases hl
        exact Length.parse_pixel hparse
  have hfree : number.any Text.isBlank = false := by
    by_contra hblank
    rw [Bool.not_eq_false] at hblank
    rw [Length.number?, hblank, Bool.or_true, if_pos rfl] at hnumber
    cases hnumber
  rw [htext]
  constructor
  · intro c hc
    rcases List.mem_append.1 hc with hc | hc
    · exact Bool.eq_false_iff.2 (List.any_eq_false.1 hfree c hc)
    · have hunit : ['p', 'x'].any Text.isBlank = false := by
        decide
      exact Bool.eq_false_iff.2 (List.any_eq_false.1 hunit c hc)
  · exact List.getLast?_append_of_ne_nil _ (by decide)

end Grammar

theorem Grammar.parts_trimmed (value : String) :
    parts (String.ofList (Text.trim value.toList)) = (Text.words value.toList).map String.ofList := by
  rw [parts, String.toList_ofList, Text.words_trim]

/-! ### Borders -/

variable {τ : Type} [Timescale τ]

namespace Declaration

variable {a b : Setting τ π} {c p value : String}

/-- Whether a value has a blank inside. -/
def hasGap (value : String) : Bool :=
  (Text.trim value.toList).any Text.isBlank

/-- The setting of a declaration is what the grammar of its property makes of the value. -/
theorem setting_eq {property value : String} {grammar : Grammar τ π}
    (h : Grammar.all.lookup property = some grammar) :
    setting ⟨property, value⟩ = match grammar property (String.ofList (Text.trim value.toList)) with
      | .ok setting => .ok setting
      | .error e => .error (.value e) := by
  cases hread : grammar property (String.ofList (Text.trim value.toList)) <;>
    simp only [setting, h, hread]

theorem setting_borderColor (value : String) :
    (setting ⟨"font-border-color", value⟩ : Except DeclarationError (Setting τ π)) =
      match Color.parse (String.ofList (Text.trim value.toList)) with
      | .ok color => .ok (.fontBorderColor color)
      | .error e => .error (.value e) := by
  have hlookup : (Grammar.all : List (String × Grammar τ π)).lookup "font-border-color" =
      some (Grammar.reads Color.parse .fontBorderColor) := rfl
  rw [setting_eq hlookup, Grammar.reads]
  cases Color.parse (String.ofList (Text.trim value.toList)) <;> rfl

theorem setting_borderWidth (value : String) :
    (setting ⟨"font-border-width", value⟩ : Except DeclarationError (Setting τ π)) =
      match Grammar.pixels? (String.ofList (Text.trim value.toList)) with
      | some width => .ok (.fontBorderWidth width)
      | none => .error (.value
          (.property "font-border-width" (String.ofList (Text.trim value.toList)))) := by
  have hlookup : (Grammar.all : List (String × Grammar τ π)).lookup "font-border-width" =
      some (Grammar.expects Grammar.pixels? .fontBorderWidth) := rfl
  rw [setting_eq hlookup, Grammar.expects]
  cases Grammar.pixels? (π := π) (String.ofList (Text.trim value.toList)) <;> rfl

theorem exists_of_setting_borderColor (h : setting ⟨"font-border-color", c⟩ = .ok a) :
    ∃ color, Color.parse (String.ofList (Text.trim c.toList)) = .ok color ∧
      a = .fontBorderColor color := by
  rw [setting_borderColor] at h
  split at h
  · next color hread => exact ⟨color, hread, (Except.ok.inj h).symm⟩
  · cases h

theorem exists_of_setting_borderWidth (h : setting ⟨"font-border-width", p⟩ = .ok b) :
    ∃ width, Grammar.pixels? (String.ofList (Text.trim p.toList)) = some width ∧
      b = .fontBorderWidth width := by
  rw [setting_borderWidth] at h
  split at h
  · next width hread => exact ⟨width, hread, (Except.ok.inj h).symm⟩
  · cases h

theorem setting_border (value : String) :
    (setting ⟨"font-border", value⟩ : Except DeclarationError (Setting τ π)) =
      match Grammar.colorAndPixels? (String.ofList (Text.trim value.toList)) with
      | some (color, width) => .ok (.fontBorder color width)
      | none =>
          .error (.value (.property "font-border" (String.ofList (Text.trim value.toList)))) := by
  have hlookup : (Grammar.all : List (String × Grammar τ π)).lookup "font-border" =
      some (Grammar.expects Grammar.colorAndPixels? fun border => .fontBorder border.1 border.2) :=
    rfl
  rw [setting_eq hlookup, Grammar.expects]
  cases Grammar.colorAndPixels? (π := π) (String.ofList (Text.trim value.toList)) <;> rfl

/-- What is accepted as a color and as a width apart is a border if the color is one word. -/
theorem colorAndPixels?_eq {color : Color} {width : π}
    (hc : Color.parse (String.ofList (Text.trim c.toList)) = .ok color)
    (hp : Grammar.pixels? (String.ofList (Text.trim p.toList)) = some width)
    (hv : value = c ++ " " ++ p ∨ value = p ++ " " ++ c) :
    Grammar.colorAndPixels? (String.ofList (Text.trim value.toList)) =
      if hasGap c then none else some (color, width) := by
  obtain ⟨hfree, hlast⟩ := Grammar.word_of_pixels? hp
  rw [Text.trim_trimmed] at hfree hlast
  have hpne : Text.trim p.toList ≠ [] := by
    rintro hnil
    rw [hnil] at hlast
    cases hlast
  have hwords : Text.words value.toList = Text.words c.toList ++ [Text.trim p.toList] ∨
      Text.words value.toList = [Text.trim p.toList] ++ Text.words c.toList := by
    rw [← Text.words_of_free hpne hfree]
    rcases hv with rfl | rfl
    · exact .inl (Text.words_spaced c p)
    · exact .inr (Text.words_spaced p c)
  unfold Grammar.colorAndPixels?
  rw [Grammar.parts_trimmed]
  by_cases hgap : hasGap c = true
  · have htwo := Text.two_le_words (List.any_eq_true.1 hgap)
    have hthree : 3 ≤ ((Text.words value.toList).map String.ofList).length := by
      rw [List.length_map]
      rcases hwords with h | h <;> rw [h, List.length_append, List.length_singleton] <;> omega
    rw [if_pos hgap]
    split
    · next heq =>
        rw [heq] at hthree
        exact absurd hthree (Nat.not_succ_le_self 2)
    · rfl
  · have hcfree : ∀ ch ∈ Text.trim c.toList, Text.isBlank ch = false := by
      intro ch hch
      exact Bool.eq_false_iff.2 (List.any_eq_false.1 (Bool.eq_false_iff.2 hgap) ch hch)
    have hcne : Text.trim c.toList ≠ [] := Text.trim_trimmed c ▸ Color.ne_nil_of_parse hc
    have hnot : Grammar.pixels? (π := π) (String.ofList (Text.trim c.toList)) = none := by
      cases hwidth : Grammar.pixels? (π := π) (String.ofList (Text.trim c.toList)) with
      | none => rfl
      | some n => exact absurd (Grammar.word_of_pixels? hwidth).2 (Color.last_of_parse hc)
    rw [if_neg hgap]
    rw [Text.words_of_free hcne hcfree] at hwords
    rcases hwords with h | h
    · rw [h]
      simp only [List.singleton_append, List.map_cons, List.map_nil, hnot, hc, hp]
      rfl
    · rw [h]
      simp only [List.singleton_append, List.map_cons, List.map_nil, hc, hp]
      rfl

/-- A color that is no function is one word. -/
theorem hasGap_eq_false {color : Color}
    (hc : Color.parse (String.ofList (Text.trim c.toList)) = .ok color) (hopen : '(' ∉ c.toList) :
    hasGap c = false := by
  have hfree := Color.free_of_parse hc
  rw [Text.trim_trimmed, String.toList_ofList] at hfree
  obtain ⟨front, back, -, -, hs, -⟩ := Text.exists_trim c.toList
  have hinside : '(' ∉ Text.trim c.toList := fun hmem =>
    hopen (hs ▸ List.mem_append_left back (List.mem_append_right front hmem))
  exact List.any_eq_false.2 fun ch hch => Bool.eq_false_iff.1 (hfree hinside ch hch)

/-- A border sets what its color and its width set apart, if the color is one word: every keyword,
and all digits, but not every function. Else it is refused, and the style stays as it was. -/
theorem declare_border (hc : setting ⟨"font-border-color", c⟩ = .ok a)
    (hp : setting ⟨"font-border-width", p⟩ = .ok b)
    (hv : value = c ++ " " ++ p ∨ value = p ++ " " ++ c) :
    (∃ color width, a = .fontBorderColor color ∧ b = .fontBorderWidth width ∧
      (setting ⟨"font-border", value⟩ : Except DeclarationError (Setting τ π)) =
        if hasGap c then
          .error (.value (.property "font-border" (String.ofList (Text.trim value.toList))))
        else
          .ok (.fontBorder color width)) ∧
    (∀ s : Style τ π, s.declare ⟨"font-border", value⟩ =
      if hasGap c then s
      else (s.declare ⟨"font-border-color", c⟩).declare ⟨"font-border-width", p⟩) ∧
    ('(' ∉ c.toList → hasGap c = false) := by
  obtain ⟨color, hcolor, rfl⟩ := exists_of_setting_borderColor hc
  obtain ⟨width, hwidth, rfl⟩ := exists_of_setting_borderWidth hp
  have hborder : (setting ⟨"font-border", value⟩ : Except DeclarationError (Setting τ π)) =
      if hasGap c then
        .error (.value (.property "font-border" (String.ofList (Text.trim value.toList))))
      else
        .ok (.fontBorder color width) := by
    rw [setting_border, colorAndPixels?_eq hcolor hwidth hv]
    cases hasGap c <;> rfl
  refine ⟨⟨color, width, rfl, rfl, hborder⟩, fun s => ?_, hasGap_eq_false hcolor⟩
  have hboth : (s.declare ⟨"font-border-color", c⟩).declare ⟨"font-border-width", p⟩ =
      { s with fontBorderColor := some color, fontBorderWidth := some width } := by
    rw [Style.declare, hp, Style.declare, hc]
    rfl
  rw [hboth, Style.declare, hborder]
  cases hasGap c <;> rfl

/-- Ink that is spelled as a function, with blanks between its channels. -/
def inkText : String :=
  "rgb(10, 20, 30)"

theorem setting_ink : setting ⟨"font-border-color", inkText⟩ =
    .ok (.fontBorderColor ⟨10, 20, 30, 255⟩ : Setting Rat Int) := by
  have hread : Color.parse (String.ofList (Text.trim inkText.toList)) = .ok ⟨10, 20, 30, 255⟩ := by
    decide +kernel
  rw [setting_borderColor, hread]

theorem setting_fine : setting ⟨"font-border-width", "3px"⟩ =
    .ok (.fontBorderWidth 3 : Setting Rat Int) := by
  have hread : Grammar.pixels? (π := Int) (String.ofList (Text.trim "3px".toList)) = some 3 := by
    decide +kernel
  rw [setting_borderWidth, hread]

theorem declare_border_red :
    (Style.initial : Style Rat Int).declare ⟨"font-border", "3px RED"⟩ =
      { Style.initial with fontBorderColor := some ⟨255, 0, 0, 255⟩, fontBorderWidth := some 3 } ∧
    (Style.initial : Style Rat Int).declare ⟨"font-border", inkText ++ " " ++ "3px"⟩ =
      Style.initial := by
  have hred : setting ⟨"font-border-color", "RED"⟩ =
      .ok (.fontBorderColor ⟨255, 0, 0, 255⟩ : Setting Rat Int) := by
    have hread : Color.parse (String.ofList (Text.trim "RED".toList)) = .ok ⟨255, 0, 0, 255⟩ := by
      decide +kernel
    rw [setting_borderColor, hread]
  have hword : hasGap "RED" = false := by
    decide +kernel
  have hgap : hasGap inkText = true := by
    decide +kernel
  constructor
  · have hagree := (declare_border hred setting_fine (.inr rfl)).2.1 Style.initial
    rw [hword] at hagree
    refine hagree.trans ?_
    rw [if_neg Bool.false_ne_true, Style.declare, setting_fine, Style.declare, hred]
    rfl
  · have hrefused := (declare_border setting_ink setting_fine (.inl rfl)).2.1 Style.initial
    rwa [hgap] at hrefused

/-- A color and a width that are accepted apart may be refused as a border. -/
theorem border_refused : ¬ ∀ (c p : String) (a b : Setting Rat Int),
    setting ⟨"font-border-color", c⟩ = .ok a → setting ⟨"font-border-width", p⟩ = .ok b →
      (∃ d : Setting Rat Int, setting ⟨"font-border", c ++ " " ++ p⟩ = .ok d) ∧
      ∀ s : Style Rat Int, s.declare ⟨"font-border", c ++ " " ++ p⟩ =
        (s.declare ⟨"font-border-color", c⟩).declare ⟨"font-border-width", p⟩ := by
  intro h
  have hrefused : Grammar.colorAndPixels? (π := Int)
      (String.ofList (Text.trim (inkText ++ " " ++ "3px").toList)) = none := by
    decide +kernel
  obtain ⟨⟨d, hd⟩, -⟩ := h inkText "3px" _ _ setting_ink setting_fine
  rw [setting_border, hrefused] at hd
  cases hd

end Declaration
end Montage
