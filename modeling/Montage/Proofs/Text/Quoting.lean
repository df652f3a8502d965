import Montage.Text.Shell

/-!
# Arguments that a shell reads back

The line on which a command is shown is read back to the arguments of the command.

**Input.** Any arguments, empty ones and ones of blanks, quotes and other marks among them.

**Algorithm.** A word is followed from where it begins. A bare argument adds its characters one after
the other; a quoted one is read between its quotes, and at each quote inside it the reader leaves the
quotes for one escaped character and goes back.

**Results.** `Shell.words?_line`: the words of the line are the arguments, in number, order and
content.
-/

namespace Montage
namespace Shell

/-- A quote outside quotes opens them, and with them a word. -/
theorem wordsFrom_open (word : Option (List Char)) (rest : List Char) :
    wordsFrom false word ('\'' :: rest) = wordsFrom true (some (word.getD [])) rest := by
  rw [wordsFrom.eq_def]
  exact if_pos rfl

/-- A space outside quotes ends a word. -/
theorem wordsFrom_space (word : Option (List Char)) (rest : List Char) :
    wordsFrom false word (' ' :: rest) = (wordsFrom false none rest).map (word.toList ++ ·) := by
  rw [wordsFrom.eq_def]
  rfl

/-! ### Bare arguments -/

/-- A harmless character neither quotes nor ends a word, and the shell does nothing with it. -/
theorem unmarked_of_isPlain {c : Char} (h : isPlain c = true) :
    c ≠ '\'' ∧ c ≠ '\\' ∧ isGap c = false ∧ isActive c = false := by
  have hmarks : ("'\\ \t\n\"$`&|;<>()\x7b\x7d*?[]#~!%".toList.all fun d => !isPlain d) = true := by
    decide
  have hc : c ∉ "'\\ \t\n\"$`&|;<>()\x7b\x7d*?[]#~!%".toList := by
    intro hc
    have hmark := List.all_eq_true.1 hmarks c hc
    rw [h] at hmark
    cases hmark
  simp at hc
  simp [isGap, isActive, hc]

/-- A harmless character is added to the word that has begun. -/
theorem wordsFrom_cons_plain {c : Char} (h : isPlain c = true) (word : Option (List Char))
    (rest : List Char) :
    wordsFrom false word (c :: rest) = wordsFrom false (some (word.getD [] ++ [c])) rest := by
  obtain ⟨hquote, hescape, hgap, hactive⟩ := unmarked_of_isPlain h
  rw [wordsFrom.eq_def]
  simp only [hquote, hescape, hgap, hactive, Bool.false_eq_true, if_false]

/-- Harmless characters are added to the word that has begun. -/
theorem wordsFrom_plain {cs : List Char} (h : ∀ c ∈ cs, isPlain c = true) (word : List Char)
    (rest : List Char) :
    wordsFrom false (some word) (cs ++ rest) = wordsFrom false (some (word ++ cs)) rest := by
  induction cs generalizing word with
  | nil => rw [List.nil_append, List.append_nil]
  | cons c cs ih =>
      obtain ⟨hc, hcs⟩ := List.forall_mem_cons.1 h
      rw [List.cons_append, wordsFrom_cons_plain hc, Option.getD_some, ih hcs, List.append_assoc,
        List.singleton_append]

/-! ### Quoted arguments -/

/-- A quote in the midst of quoted text: the quotes are closed, the escaped quote is added, and the
quotes are opened again. -/
theorem wordsFrom_escaped (word rest : List Char) :
    wordsFrom true (some word) ("'\\''".toList ++ rest) =
      wordsFrom true (some (word ++ ['\''])) rest := by
  have hclose : wordsFrom true (some word) ("'\\''".toList ++ rest) =
      wordsFrom false (some word) ('\\' :: '\'' :: '\'' :: rest) := by
    simp [wordsFrom]
  have hadd : wordsFrom false (some word) ('\\' :: '\'' :: '\'' :: rest) =
      wordsFrom false (some (word ++ ['\''])) ('\'' :: rest) := by
    simp [wordsFrom]
  rw [hclose, hadd, wordsFrom_open, Option.getD_some]

/-- Quoted text is added to the word that has begun, up to the closing quote. -/
theorem wordsFrom_quoted (cs word rest : List Char) :
    wordsFrom true (some word) (Text.replaceChar '\'' "'\\''".toList cs ++ '\'' :: rest) =
      wordsFrom false (some (word ++ cs)) rest := by
  induction cs generalizing word with
  | nil => simp [Text.replaceChar, wordsFrom]
  | cons c cs ih =>
      rw [Text.replaceChar, List.flatMap_cons, List.append_assoc]
      change wordsFrom true (some word) (_ ++ (Text.replaceChar _ _ cs ++ _)) = _
      by_cases hc : c = '\''
      · rw [if_pos hc, wordsFrom_escaped, ih, hc, List.append_assoc, List.singleton_append]
      · rw [if_neg hc, List.singleton_append, wordsFrom, if_neg hc, Option.getD_some, ih,
          List.append_assoc, List.singleton_append]

/-! ### Lines -/

/-- A written argument is the word that it was written from. -/
theorem wordsFrom_quote (cs rest : List Char) :
    wordsFrom false none (quote cs ++ rest) = wordsFrom false (some cs) rest := by
  unfold quote
  split
  · next hbare =>
      rw [Bool.and_eq_true, List.all_eq_true] at hbare
      obtain ⟨hne, hplain⟩ := hbare
      cases cs with
      | nil => cases hne
      | cons c cs =>
          obtain ⟨hc, hcs⟩ := List.forall_mem_cons.1 hplain
          rw [List.cons_append, wordsFrom_cons_plain hc, wordsFrom_plain hcs]
          rfl
  · rw [List.cons_append, List.append_assoc, List.singleton_append, wordsFrom_open]
    exact wordsFrom_quoted cs [] rest

/-- The arguments of a command are the words of its line, whatever characters they are made of. -/
theorem words?_line (args : List (List Char)) : words? (line args) = some args := by
  unfold words? line
  induction args with
  | nil => rfl
  | cons first rest ih =>
      cases rest with
      | nil =>
          have hlast := wordsFrom_quote first []
          rw [List.append_nil] at hlast
          simpa [wordsFrom] using hlast
      | cons second rest =>
          rw [List.map_cons, List.map_cons, List.intercalate_cons_cons, ← List.map_cons,
            List.append_assoc, wordsFrom_quote, List.singleton_append, wordsFrom_space, ih]
          rfl

/-- An empty argument, one with a quote, a blank and a variable, and one of quotes. -/
example : line ["-y".toList, [], "it's $HOME".toList, "''".toList] =
    "-y '' 'it'\\''s $HOME' ''\\'''\\'''".toList := by
  decide

end Shell
end Montage
