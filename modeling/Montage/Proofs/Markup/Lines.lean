import Mathlib.Data.List.DropRight
import Montage.Proofs.Markup.Schema

/-!
# The lines of a text

The body of a text element is as wide as its document likes, but its lines are those of its breaks.

**Input.** A text element that holds texts and breaks.

**Algorithm.** Blanks may go, so lines are compared by the characters that are not blank
(`inkedLines`). The characters of the element, before they are trimmed, have one line for each run of
texts between breaks, since a text loses its own line ends. A blank at the start or the end of a text is
part of a blank line or changes no line, so that trimming drops blank lines at either end and nothing
else.

**Results.**
* `inkedLines_bodyChars`: the lines before trimming are the runs of texts between breaks.
* `inkedLines_trim`: trimming drops the blank lines at either end.
* `Element.lines_textBody`: the lines of the body of a text element.
-/

namespace Montage
namespace Markup

/-- The texts between breaks: before the first, from each one to the next, and after the last. -/
def runs : List Content → List (List String)
  | [] => [[]]
  | .text s :: rest => (runs rest).modifyHead (s :: ·)
  | .element _ :: rest => [] :: runs rest

/-- The characters of texts that are not blank. -/
def inkedTexts (texts : List String) : List Char :=
  texts.flatMap fun s => inked s.toList

/-- The characters of each line of a text that are not blank. -/
def inkedLines (cs : List Char) : List (List Char) :=
  (Text.splitAll '\n' cs).map inked

variable {c : Char} {cs w : List Char} {children : List Content}

/-! ### Lines, character by character -/

theorem inked_cons (c : Char) (cs : List Char) : inked (c :: cs) = inked [c] ++ inked cs :=
  inked_append [c] cs

theorem inked_singleton (h : Text.isBlank c = true) : inked [c] = [] :=
  List.filter_cons_of_neg (by rw [h]; decide)

theorem inked_singleton_of_free (h : Text.isBlank c = false) : inked [c] = [c] :=
  List.filter_cons_of_pos (by rw [h]; rfl)

theorem ne_newline (h : Text.isBlank c = false) : c ≠ '\n' := by
  rintro rfl
  exact absurd h (by decide)

theorem inkedLines_newline (cs : List Char) : inkedLines ('\n' :: cs) = [] :: inkedLines cs := by
  rw [inkedLines, Text.splitAll, if_pos rfl]
  rfl

theorem inkedLines_cons (h : c ≠ '\n') (cs : List Char) :
    inkedLines (c :: cs) = (inkedLines cs).modifyHead (inked [c] ++ ·) := by
  rw [inkedLines, inkedLines, Text.splitAll, if_neg h]
  cases hcs : Text.splitAll '\n' cs with
  | nil => exact absurd hcs (Text.splitAll_ne_nil _ _)
  | cons w ws =>
      rw [List.map_cons, inked_cons]
      rfl

theorem exists_inkedLines (cs : List Char) : ∃ line lines, inkedLines cs = line :: lines :=
  List.exists_cons_of_ne_nil (mt List.map_eq_nil_iff.1 (Text.splitAll_ne_nil _ _))

/-- What has no line end goes to the first line of what follows. -/
theorem inkedLines_append (h : '\n' ∉ w) (cs : List Char) :
    inkedLines (w ++ cs) = (inkedLines cs).modifyHead (inked w ++ ·) := by
  obtain ⟨line, lines, hcs⟩ := exists_inkedLines cs
  rw [hcs, List.modifyHead_cons]
  induction w with
  | nil => exact hcs
  | cons c w ih =>
      obtain ⟨hc, hw⟩ := not_or.1 (mt List.mem_cons.2 h)
      rw [List.cons_append, inkedLines_cons (Ne.symm hc), ih hw, List.modifyHead_cons,
        inked_cons c w, List.append_assoc]

/-- A character goes to the last line of what is before it, and a line end starts a new one. -/
theorem inkedLines_concat (cs : List Char) (c : Char) : ∃ lines line,
    inkedLines cs = lines ++ [line] ∧
      inkedLines (cs ++ [c]) =
        lines ++ if c = '\n' then [line, []] else [line ++ inked [c]] := by
  induction cs with
  | nil =>
      refine ⟨[], [], rfl, ?_⟩
      by_cases hc : c = '\n'
      · rw [hc]
        rfl
      · have hline : inkedLines [c] = [inked [c] ++ []] := inkedLines_cons hc []
        rw [if_neg hc, List.nil_append, hline, List.append_nil]
        rfl
  | cons d cs ih =>
      obtain ⟨lines, line, hcs, hconcat⟩ := ih
      by_cases hd : d = '\n'
      · refine ⟨[] :: lines, line, ?_, ?_⟩
        · rw [hd, inkedLines_newline, hcs, List.cons_append]
        · rw [hd, List.cons_append, inkedLines_newline, hconcat, List.cons_append]
      · rw [List.cons_append, inkedLines_cons hd, inkedLines_cons hd, hcs, hconcat]
        cases lines with
        | nil =>
            refine ⟨[], inked [d] ++ line, rfl, ?_⟩
            split
            · rfl
            · rw [List.append_assoc]
              rfl
        | cons first lines => exact ⟨(inked [d] ++ first) :: lines, line, rfl, rfl⟩

/-! ### Trimming -/

theorem inked_ne_nil_of_append {ds : List Char} (h : inked (cs ++ ds) ≠ []) (hds : inked ds = []) :
    inked cs ≠ [] := by
  rwa [inked_append, hds, List.append_nil] at h

/-- Blanks at the start are blank lines and the start of the first line that is not blank. -/
theorem inkedLines_trimStart (h : inked cs ≠ []) :
    inkedLines (Text.trimStart cs) = (inkedLines cs).dropWhile List.isEmpty := by
  induction cs with
  | nil => exact absurd rfl h
  | cons c cs ih =>
      cases hc : Text.isBlank c with
      | true =>
          rw [inked_cons, inked_singleton hc] at h
          have htrim : Text.trimStart (c :: cs) = Text.trimStart cs := List.dropWhile_cons_of_pos hc
          rw [htrim, ih h]
          -- a line end in front makes a blank line, and any other blank changes no line
          by_cases hnewline : c = '\n'
          · rw [hnewline, inkedLines_newline]
            rfl
          · obtain ⟨line, lines, hcs⟩ := exists_inkedLines cs
            rw [inkedLines_cons hnewline, inked_singleton hc, hcs]
            rfl
      | false =>
          have htrim : Text.trimStart (c :: cs) = c :: cs :=
            List.dropWhile_cons_of_neg (by rw [hc]; exact Bool.false_ne_true)
          obtain ⟨line, lines, hcs⟩ := exists_inkedLines cs
          rw [htrim, inkedLines_cons (ne_newline hc), inked_singleton_of_free hc, hcs]
          rfl

/-- Blanks at the end are the end of the last line that is not blank and blank lines. -/
theorem inkedLines_trimEnd (h : inked cs ≠ []) :
    inkedLines (Text.trimEnd cs) = (inkedLines cs).rdropWhile List.isEmpty := by
  -- from the end, since trimming looks at the last character first
  induction cs using List.reverseRecOn with
  | nil => exact absurd rfl h
  | append_singleton cs c ih =>
      obtain ⟨lines, line, hcs, hconcat⟩ := inkedLines_concat cs c
      cases hc : Text.isBlank c with
      | true =>
          have htrim : Text.trimEnd (cs ++ [c]) = Text.trimEnd cs := by
            rw [Text.trimEnd, List.reverse_concat, List.dropWhile_cons_of_pos hc, Text.trimEnd]
          rw [htrim, ih (inked_ne_nil_of_append h (inked_singleton hc)), hconcat, hcs]
          split
          · have hblank : lines ++ [line, []] = (lines ++ [line]) ++ [[]] :=
              (List.append_assoc lines [line] [[]]).symm
            rw [hblank, List.rdropWhile_concat_pos List.isEmpty (lines ++ [line]) [] rfl]
          · rw [inked_singleton hc, List.append_nil]
      | false =>
          have htrim : Text.trimEnd (cs ++ [c]) = cs ++ [c] := by
            rw [Text.trimEnd, List.reverse_concat,
              List.dropWhile_cons_of_neg (by rw [hc]; exact Bool.false_ne_true), ← List.reverse_concat,
              List.reverse_reverse]
          rw [htrim, hconcat, if_neg (ne_newline hc), inked_singleton_of_free hc]
          exact (List.rdropWhile_concat_neg _ _ _ (by simp)).symm

/-- Trimming drops the blank lines at either end. -/
theorem inkedLines_trim (h : inked cs ≠ []) :
    inkedLines (Text.trim cs) =
      ((inkedLines cs).dropWhile List.isEmpty).rdropWhile List.isEmpty := by
  rw [Text.trim, inkedLines_trimEnd (by rwa [inked_trimStart]), inkedLines_trimStart h]

/-! ### The lines of an element -/

theorem newline_notMem_of_mem_splitAll (h : w ∈ Text.splitAll '\n' cs) : '\n' ∉ w := by
  induction cs generalizing w with
  | nil =>
      rw [List.mem_singleton.1 h]
      exact List.not_mem_nil
  | cons c cs ih =>
      rw [Text.splitAll] at h
      split at h
      · rcases List.mem_cons.1 h with rfl | h
        · exact List.not_mem_nil
        · exact ih h
      · next hc =>
          split at h
          · next heq => exact absurd heq (Text.splitAll_ne_nil _ _)
          · next v ws heq =>
              rw [heq] at ih
              rcases List.mem_cons.1 h with rfl | h
              · exact fun hmem => (List.mem_cons.1 hmem).elim (Ne.symm hc) (ih List.mem_cons_self)
              · exact ih (List.mem_cons_of_mem v h)

/-- A text loses its line ends. -/
theorem newline_notMem_unwrapped (s : String) : '\n' ∉ unwrapped s := by
  have hpiece : ∀ w ∈ Text.splitAll '\n' s.toList, '\n' ∉ w := fun w => newline_notMem_of_mem_splitAll
  rw [unwrapped]
  cases hall : Text.splitAll '\n' s.toList with
  | nil => exact List.not_mem_nil
  | cons first others =>
      rw [hall] at hpiece
      intro hmem
      rcases List.mem_append.1 hmem with hmem | hmem
      · exact hpiece first List.mem_cons_self hmem
      · obtain ⟨trimmed, htrimmed, hmem⟩ := List.mem_flatten.1 hmem
        obtain ⟨w, hw, rfl⟩ := List.mem_map.1 htrimmed
        exact hpiece w (List.mem_cons_of_mem _ hw) ((List.dropWhile_sublist _).mem hmem)

/-- Before they are trimmed, the lines of an element are the runs of texts between its breaks. -/
theorem inkedLines_bodyChars (h : bodyChars children = .ok cs) :
    inkedLines cs = (runs children).map inkedTexts := by
  induction children generalizing cs with
  | nil =>
      obtain rfl := Except.ok.inj h
      rfl
  | cons content children ih =>
      cases content with
      | text s =>
          rw [bodyChars] at h
          obtain ⟨ds, hds, h⟩ := bind_eq_ok.1 h
          obtain rfl := Except.ok.inj h
          rw [inkedLines_append (newline_notMem_unwrapped s), ih hds, inked_unwrapped, runs]
          cases runs children with
          | nil => rfl
          | cons texts others => rfl
      | element e =>
          rw [bodyChars] at h
          split at h
          · obtain ⟨ds, hds, h⟩ := bind_eq_ok.1 h
            obtain rfl := Except.ok.inj h
            rw [inkedLines_newline, ih hds]
            rfl
          · cases h

/-- The body of an element that holds texts and breaks. The characters that are not blank are those of
the texts, in their order. The lines are the runs of texts between the breaks, but for blank runs at
either end: no line end of the document makes a line, and no break between two texts is lost. -/
theorem Element.lines_textBody (name : String) (attributes : List (String × String))
    (h : ∀ e, .element e ∈ children → e.name = "br") :
    ∃ body, (Element.mk name attributes children).textBody = .ok body ∧
      inked body.toList = inkedTexts (Element.mk name attributes children).texts ∧
      (inked body.toList ≠ [] →
        (Text.splitAll '\n' body.toList).map inked =
          (((runs children).map inkedTexts).dropWhile List.isEmpty).rdropWhile List.isEmpty) := by
  obtain ⟨cs, hcs⟩ := exists_bodyChars h
  have hbody : (Element.mk name attributes children).textBody = .ok (String.ofList (Text.trim cs)) :=
    bind_eq_ok.2 ⟨cs, hcs, rfl⟩
  refine ⟨_, hbody, (textBody_eq_ok hbody).2, fun hinked => ?_⟩
  rw [String.toList_ofList] at hinked ⊢
  rw [inked_trim] at hinked
  exact (inkedLines_trim hinked).trans (by rw [inkedLines_bodyChars hcs])

/-- A greeting in two lines, written in four. -/
def greeting : List Content :=
  [.text "\n  Hello &", .text " welcome", .element (.mk "br" [] []), .text "\n  to the\n  show\n",
    .element (.mk "br" [] []), .text "\n"]

theorem Element.lines_textBody_greeting : ∃ body,
    (Element.mk "txt" [] greeting).textBody = .ok body ∧
      inked body.toList = "Hello&welcometotheshow".toList ∧
      (Text.splitAll '\n' body.toList).map inked = ["Hello&welcome".toList, "totheshow".toList] := by
  have hbreaks : ∀ e, .element e ∈ greeting → e.name = "br" := by
    simp [greeting, Element.name]
  obtain ⟨body, hbody, hinked, hlines⟩ := Element.lines_textBody "txt" [] hbreaks
  have htexts : inkedTexts (Element.mk "txt" [] greeting).texts = "Hello&welcometotheshow".toList := by
    decide
  rw [htexts] at hinked
  refine ⟨body, hbody, hinked, (hlines (by rw [hinked]; decide)).trans ?_⟩
  decide

end Markup
end Montage
