import Mathlib.Data.List.Basic
import Montage.Graph.Filter
import Montage.Proofs.Graph.Marks
import Montage.Proofs.Graph.Pads

/-!
# Reading the text of a graph

The text of a graph as the program that runs it reads it, in two levels of escaping.

**Input.** The text of a graph.

**Algorithm.** Filters are split at semicolons without a backslash, then labels in brackets are taken
off both ends, then the name is split off. What is left loses one level of backslashes; it is split at
colons without a backslash, and every option loses the second level.

**Results.** `Graph.decode_text`: the text of a graph is read as the graph, whatever the values of its
options are.
-/

namespace Montage

/-- A filter as it is read, with the labels before and after it. -/
structure Labelled where
  inputs : List String
  filter : Invocation
  outputs : List String
  deriving Repr, DecidableEq

namespace Decode

/-- The characters of names. -/
def isWordChar (c : Char) : Bool :=
  c.isAlphanum || c == '_'

def IsWord (s : String) : Prop :=
  s.toList ≠ [] ∧ ∀ c ∈ s.toList, isWordChar c = true

/-- Whether a text could be taken for an option with a name. -/
def IsKeyed (s : String) : Prop :=
  ∃ key rest, IsWord key ∧ s.toList = key.toList ++ '=' :: rest

def unescaped (ms : List Mark) : String :=
  String.ofList (ms.map Mark.char)

def isKeyMark (m : Mark) : Bool :=
  !m.escaped && isWordChar m.char

/-- Labels in brackets, up to the first character that is outside of brackets. The first argument is
what was read of a label that is open. -/
def labels : Option (List Mark) → List Mark → List String × List Mark
  | none, [] => ([], [])
  | some _, [] => ([], [])
  | none, m :: rest => if m = ⟨false, '['⟩ then labels (some []) rest else ([], m :: rest)
  | some cs, m :: rest =>
      if m = ⟨false, ']'⟩ then
        (unescaped cs :: (labels none rest).1, (labels none rest).2)
      else
        labels (some (cs ++ [m])) rest

/-- An option, with its name if it begins with one. -/
def option (ms : List Mark) : Option String × String :=
  match ms.takeWhile isKeyMark, ms.dropWhile isKeyMark with
  | m :: key, ⟨false, '='⟩ :: value => (some (unescaped (m :: key)), unescaped value)
  | _, _ => (none, unescaped ms)

/-- The options of a filter, in characters that have lost one level of backslashes. -/
def options (cs : List Char) : List (Option String × String) :=
  ((marks cs).splitOn ⟨false, ':'⟩).map option

/-- A name, and options if there is an equals sign after it. -/
def invocation (ms : List Mark) : Invocation :=
  let name := unescaped (ms.takeWhile (· ≠ ⟨false, '='⟩))
  match ms.dropWhile (· ≠ ⟨false, '='⟩) with
  | [] => ⟨name, []⟩
  | _ :: rest => ⟨name, options (rest.map Mark.char)⟩

/-- A filter between its labels. -/
def node (ms : List Mark) : Labelled :=
  let (inputs, rest) := labels none ms
  ⟨inputs, invocation (rest.takeWhile (· ≠ ⟨false, '['⟩)),
    (labels none (rest.dropWhile (· ≠ ⟨false, '['⟩))).1⟩

/-- The filters of a text; an empty text has none. -/
def nodes (text : String) : List Labelled :=
  if text.isEmpty then [] else ((marks text.toList).splitOn ⟨false, ';'⟩).map node

end Decode

/-- The names of a filter are words, and no value without a name could be taken for one with. -/
structure Invocation.IsReadable (i : Invocation) : Prop where
  name : Decode.IsWord i.name
  keys : ∀ o ∈ i.options, ∀ key ∈ o.1, Decode.IsWord key
  values : ∀ o ∈ i.options, o.1 = none → ¬ Decode.IsKeyed o.2

namespace Decode

/-- The marks of a label in brackets. -/
def bracketMarks (label : String) : List Mark :=
  ⟨false, '['⟩ :: (plain label.toList ++ [⟨false, ']'⟩])

theorem labels_open {ds : List Char} (h : ']' ∉ ds) (cs rest : List Mark) :
    labels (some cs) (plain ds ++ ⟨false, ']'⟩ :: rest) =
      (unescaped (cs ++ plain ds) :: (labels none rest).1, (labels none rest).2) := by
  induction ds generalizing cs with
  | nil => simp [plain, labels]
  | cons d ds ih =>
      have hd : d ≠ ']' := fun hd => h (hd ▸ List.mem_cons_self)
      have hds := ih (fun hm => h (List.mem_cons_of_mem _ hm)) (cs ++ [⟨false, d⟩])
      rw [plain, List.map_cons, List.cons_append, labels, if_neg (by simpa using hd)]
      simpa [plain] using hds

/-- Labels are taken off one by one. -/
theorem labels_bracketMarks {ls : List String} (h : ∀ l ∈ ls, ']' ∉ l.toList) (rest : List Mark) :
    labels none ((ls.map bracketMarks).flatten ++ rest) =
      (ls ++ (labels none rest).1, (labels none rest).2) := by
  induction ls with
  | nil => rfl
  | cons l ls ih =>
      have hl := labels_open (h l List.mem_cons_self) [] ((ls.map bracketMarks).flatten ++ rest)
      have hname : unescaped (plain l.toList) = l := by
        rw [unescaped, map_char_plain, String.ofList_toList]
      rw [ih fun m hm => h m (List.mem_cons_of_mem _ hm), List.nil_append, hname] at hl
      rw [List.map_cons, List.flatten_cons, bracketMarks, List.cons_append, List.cons_append, labels,
        if_pos rfl, List.append_assoc, List.append_assoc, List.singleton_append, hl]
      rfl

theorem ne_of_isWordChar {c d : Char} (h : isWordChar c = true) (hd : isWordChar d = false) :
    c ≠ d := by
  rintro rfl
  rw [hd] at h
  cases h

theorem notMem_word {s : String} (h : IsWord s) {c : Char} (hc : isWordChar c = false) :
    c ∉ s.toList :=
  fun hm => ne_of_isWordChar (h.2 c hm) hc rfl

theorem isWordChar_label (p : Pad) : ∀ c ∈ p.label.toList, isWordChar c = true ∨ c = ':' := by
  have hdigits : ∀ n, ∀ c ∈ Nat.toDigits 10 n, isWordChar c = true := by
    intro n c hc
    have := Nat.isDigit_of_mem_toDigits (by decide) (by decide) hc
    simp [isWordChar, Char.isAlphanum, this]
  intro c hc
  cases p with
  | input index kind =>
      rw [Pad.toList_label_input, List.mem_append] at hc
      rcases hc with hc | hc
      · exact Or.inl (hdigits _ c hc)
      · have hend : [':', kind.letter, ':', '0'].all
            fun c => decide (isWordChar c = true ∨ c = ':') := by
          cases kind <;> decide
        exact of_decide_eq_true (List.all_eq_true.1 hend c hc)
  | output kind id =>
      rw [Pad.toList_label_output, List.mem_cons] at hc
      rcases hc with rfl | hc
      · cases kind <;> decide
      · exact Or.inl (hdigits _ c hc)

theorem notMem_label {p : Pad} {c : Char} (hc : isWordChar c = false) (hn : c ≠ ':') :
    c ∉ p.label.toList := by
  intro hm
  rcases isWordChar_label p c hm with h | h
  · exact ne_of_isWordChar h hc rfl
  · exact hn h

/-- What stands before the value of an option. -/
def keyChars (o : Option String × String) : List Char :=
  match o.1 with
  | some key => key.toList ++ ['=']
  | none => []

/-- An option that has lost one level of backslashes. -/
def optionChars (o : Option String × String) : List Char :=
  keyChars o ++ Invocation.escapeWith Invocation.optionSpecial o.2.toList

theorem toList_optionText (o : Option String × String) :
    (Invocation.optionText o).toList = keyChars o ++
      Invocation.escapeWith Invocation.graphSpecial
        (Invocation.escapeWith Invocation.optionSpecial o.2.toList) := by
  rcases o with ⟨_ | key, value⟩ <;> simp [Invocation.optionText, keyChars, Invocation.escape]

/-- The options and the name of a filter that can be read back. -/
def IsReadableOption (o : Option String × String) : Prop :=
  (∀ key ∈ o.1, IsWord key) ∧ (o.1 = none → ¬ IsKeyed o.2)

variable {o : Option String × String}

theorem IsReadableOption.notMem (h : IsReadableOption o) {c : Char} (hc : isWordChar c = false)
    (hn : c ≠ '=') : c ∉ keyChars o := by
  rcases o with ⟨_ | key, value⟩
  · simp [keyChars]
  · intro hm
    rcases List.mem_append.1 hm with hm | hm
    · exact notMem_word (h.1 key rfl) hc hm
    · exact hn (List.mem_singleton.1 hm)

theorem IsReadableOption.marks_optionChars (h : IsReadableOption o) :
    marks (optionChars o) =
      plain (keyChars o) ++ marked Invocation.optionSpecial o.2.toList := by
  rw [optionChars, marks_plain_append (h.notMem (by decide) (by decide)),
    marks_escapeWith (by decide)]

/-- A value without a name is not taken for one with. -/
theorem option_value {value : String} (h : ¬ IsKeyed value) :
    option (marked Invocation.optionSpecial value.toList) = (none, value) := by
  unfold option
  split
  · next m key rest hkey hrest =>
      exfalso
      apply h
      rw [marked, List.takeWhile_map] at hkey
      rw [marked, List.dropWhile_map] at hrest
      obtain ⟨c, cs, hc, _, _⟩ := List.map_eq_cons_iff.1 hkey
      obtain ⟨d, ds, hd, hm, _⟩ := List.map_eq_cons_iff.1 hrest
      obtain ⟨_, rfl⟩ := Mark.mk.inj hm
      refine ⟨String.ofList (c :: cs), ds, ⟨by simp, ?_⟩, ?_⟩
      · intro e he
        rw [String.toList_ofList, ← hc] at he
        have hword := List.mem_takeWhile_imp he
        exact (Bool.and_eq_true_iff.1 hword).2
      · rw [String.toList_ofList, ← hc, ← hd, List.takeWhile_append_dropWhile]
  · rw [unescaped, map_char_marked, String.ofList_toList]

/-- An option is read as it was written. -/
theorem IsReadableOption.option_eq (h : IsReadableOption o) : option (marks (optionChars o)) = o := by
  rw [h.marks_optionChars]
  rcases o with ⟨_ | key, value⟩
  · exact option_value (h.2 rfl)
  · obtain ⟨hne, hword⟩ := h.1 key rfl
    have hkey : ∀ m ∈ plain key.toList, isKeyMark m = true := by
      intro m hm
      obtain ⟨c, hc, rfl⟩ := List.mem_map.1 hm
      exact hword c hc
    have hrest : plain (keyChars (some key, value)) ++ marked Invocation.optionSpecial value.toList =
        plain key.toList ++ (⟨false, '='⟩ :: marked Invocation.optionSpecial value.toList) := by
      simp [keyChars, plain]
    have heq : isKeyMark ⟨false, '='⟩ = false := by decide
    simp only
    rw [hrest, option, List.takeWhile_append_of_pos hkey, List.dropWhile_append_of_pos hkey,
      List.takeWhile_cons_of_neg (by simp [heq]), List.dropWhile_cons_of_neg (by simp [heq]),
      List.append_nil]
    have hname : unescaped (plain key.toList) = key := by
      rw [unescaped, map_char_plain, String.ofList_toList]
    have hvalue : unescaped (marked Invocation.optionSpecial value.toList) = value := by
      rw [unescaped, map_char_marked, String.ofList_toList]
    cases hk : plain key.toList with
    | nil => exact absurd (List.map_eq_nil_iff.1 hk) hne
    | cons m ms =>
        simp only
        rw [← hk, hname, hvalue]

theorem IsReadableOption.closed_optionChars (h : IsReadableOption o) : Closed (optionChars o) :=
  (closed_plain (h.notMem (by decide) (by decide))).append (closed_escapeWith (by decide) _)

/-- The options of a filter are read as they were written. -/
theorem options_intercalate {os : List (Option String × String)} (hne : os ≠ [])
    (h : ∀ o ∈ os, IsReadableOption o) : options ([':'].intercalate (os.map optionChars)) = os := by
  have hclosed : ∀ cs ∈ os.map optionChars, Closed cs := by
    intro cs hcs
    obtain ⟨o, ho, rfl⟩ := List.mem_map.1 hcs
    exact (h o ho).closed_optionChars
  have hcolon : ∀ ms ∈ (os.map optionChars).map marks, ⟨false, ':'⟩ ∉ ms := by
    intro ms hms
    rw [List.map_map] at hms
    obtain ⟨o, ho, rfl⟩ := List.mem_map.1 hms
    rw [Function.comp_apply, (h o ho).marks_optionChars, List.mem_append, mem_plain, not_or]
    exact ⟨(h o ho).notMem (by decide) (by decide), notMem_marked (by decide) _⟩
  rw [options, (closed_marks_intercalate (by decide) hclosed).2,
    List.splitOn_intercalate _ hcolon (by simpa using hne), List.map_map, List.map_map]
  calc os.map ((option ∘ marks) ∘ optionChars)
      = os.map id := List.map_congr_left fun o ho => (h o ho).option_eq
    _ = os := List.map_id os

/-- An option as it stands in the text of a graph. -/
theorem IsReadableOption.marks_optionText (h : IsReadableOption o) :
    Closed (Invocation.optionText o).toList ∧
      marks (Invocation.optionText o).toList = plain (keyChars o) ++
        marked Invocation.graphSpecial
          (Invocation.escapeWith Invocation.optionSpecial o.2.toList) := by
  have hkey : '\\' ∉ keyChars o := h.notMem (by decide) (by decide)
  rw [toList_optionText]
  constructor
  · exact (closed_plain hkey).append (closed_escapeWith (by decide) _)
  · rw [marks_plain_append hkey, marks_escapeWith (by decide)]

/-- The options of a filter as they stand in the text of a graph. -/
def optionMarks (os : List (Option String × String)) : List Mark :=
  [⟨false, ':'⟩].intercalate (os.map fun o => marks (Invocation.optionText o).toList)

end Decode

namespace Invocation

open Decode

variable {i : Invocation}

theorem IsReadable.option (h : i.IsReadable) : ∀ o ∈ i.options, IsReadableOption o :=
  fun o ho => ⟨h.keys o ho, h.values o ho⟩

/-- A filter as it stands in the text of a graph. -/
theorem IsReadable.marks_text (h : i.IsReadable) :
    Closed i.text.toList ∧ marks i.text.toList = plain i.name.toList ++
      if i.options.isEmpty then [] else ⟨false, '='⟩ :: optionMarks i.options := by
  have hname : '\\' ∉ i.name.toList := notMem_word h.name (by decide)
  have heq : '\\' ∉ ['='] := by decide
  unfold text
  split
  · exact ⟨closed_plain hname, by simpa using marks_plain hname⟩
  · have hclosed : ∀ cs ∈ (i.options.map optionText).map String.toList, Closed cs := by
      intro cs hcs
      rw [List.map_map] at hcs
      obtain ⟨o, ho, rfl⟩ := List.mem_map.1 hcs
      exact (h.option o ho).marks_optionText.1
    obtain ⟨hc, hm⟩ := closed_marks_intercalate (c := ':') (by decide) hclosed
    have htext : (i.name ++ "=" ++ String.intercalate ":" (i.options.map optionText)).toList =
        i.name.toList ++ (['='] ++ [':'].intercalate
          ((i.options.map optionText).map String.toList)) := by
      rw [String.toList_append, String.toList_append, String.toList_intercalate, List.append_assoc]
      rfl
    rw [htext]
    constructor
    · exact (closed_plain hname).append ((closed_plain heq).append hc)
    · rw [marks_plain_append hname, marks_plain_append heq, hm, List.map_map, List.map_map]
      rfl

theorem IsReadable.marks_ne_nil (h : i.IsReadable) : marks i.text.toList ≠ [] := by
  intro hn
  rw [h.marks_text.2, List.append_eq_nil_iff] at hn
  exact h.name.1 (List.map_eq_nil_iff.1 hn.1)

/-- No mark of a filter separates filters, or begins or ends a label. -/
theorem IsReadable.notMem_marks (h : i.IsReadable) {c : Char} (hc : c ∈ graphSpecial) :
    ⟨false, c⟩ ∉ marks i.text.toList := by
  have hspecial : graphSpecial.all
      fun c => decide (isWordChar c = false ∧ c ≠ '=' ∧ c ≠ ':') := by decide
  obtain ⟨hword, heq, hcolon⟩ := of_decide_eq_true (List.all_eq_true.1 hspecial c hc)
  rw [h.marks_text.2, List.mem_append, mem_plain, not_or]
  refine ⟨notMem_word h.name hword, ?_⟩
  split
  · exact List.not_mem_nil
  · rw [List.mem_cons, not_or]
    refine ⟨by simpa using heq, ?_⟩
    intro hm
    rcases eq_or_exists_of_mem_intercalate hm with hm | ⟨ms, hms, hm⟩
    · exact hcolon (Mark.mk.inj hm).2
    · obtain ⟨o, ho, rfl⟩ := List.mem_map.1 hms
      rw [(h.option o ho).marks_optionText.2, List.mem_append, mem_plain] at hm
      rcases hm with hm | hm
      · exact (h.option o ho).notMem hword heq hm
      · exact notMem_marked hc _ hm

/-- A filter is read as it was written. -/
theorem IsReadable.invocation_marks (h : i.IsReadable) : invocation (marks i.text.toList) = i := by
  have hname : ∀ m ∈ plain i.name.toList, decide (m ≠ ⟨false, '='⟩) = true := by
    intro m hm
    rw [decide_eq_true_iff]
    rintro rfl
    exact notMem_word h.name (by decide) (mem_plain.1 hm)
  have hread : unescaped (plain i.name.toList) = i.name := by
    rw [unescaped, map_char_plain, String.ofList_toList]
  rw [h.marks_text.2, invocation, List.takeWhile_append_of_pos hname,
    List.dropWhile_append_of_pos hname]
  by_cases hempty : i.options = []
  · rw [if_pos (List.isEmpty_iff.2 hempty), List.takeWhile_nil, List.dropWhile_nil,
      List.append_nil, hread, ← hempty]
  · have hchars : (optionMarks i.options).map Mark.char =
        [':'].intercalate (i.options.map optionChars) := by
      rw [optionMarks, map_intercalate, List.map_map]
      refine congrArg _ (List.map_congr_left fun o ho => ?_)
      rw [Function.comp_apply, (h.option o ho).marks_optionText.2]
      simp [optionChars]
    rw [if_neg (by simpa using hempty), List.takeWhile_cons_of_neg (by simp),
      List.dropWhile_cons_of_neg (by simp), List.append_nil, hread]
    simp only
    rw [hchars, options_intercalate hempty h.option]

end Invocation

namespace Stage

open Decode

theorem toList_join_bracketed (pads : List Pad) :
    (String.join (pads.map Pad.bracketed)).toList =
      (pads.map fun p => '[' :: (p.label.toList ++ [']'])).flatten := by
  rw [String.toList_join, List.flatMap_map, List.flatMap]
  refine congrArg _ (List.map_congr_left fun p _ => ?_)
  simp [Pad.bracketed]

theorem notMem_bracketed {p : Pad} {c : Char} (hc : isWordChar c = false)
    (hn : c ∉ ['[', ']', ':']) : c ∉ '[' :: (p.label.toList ++ [']']) := by
  simp only [List.mem_cons, List.not_mem_nil, or_false, not_or] at hn
  simp only [List.mem_cons, List.mem_append, List.not_mem_nil, or_false, not_or]
  exact ⟨hn.1, notMem_label hc hn.2.2, hn.2.1⟩

/-- The labels of pads as they stand in the text of a graph. -/
theorem marks_bracketed (pads : List Pad) :
    Closed (String.join (pads.map Pad.bracketed)).toList ∧
      marks (String.join (pads.map Pad.bracketed)).toList =
        ((pads.map Pad.label).map bracketMarks).flatten := by
  have hplain : ∀ p : Pad, '\\' ∉ '[' :: (p.label.toList ++ [']']) :=
    fun p => notMem_bracketed (by decide) (by decide)
  have hclosed : ∀ cs ∈ pads.map (fun p => '[' :: (p.label.toList ++ [']'])), Closed cs := by
    intro cs hcs
    obtain ⟨p, _, rfl⟩ := List.mem_map.1 hcs
    exact closed_plain (hplain p)
  rw [toList_join_bracketed]
  refine ⟨closed_flatten hclosed, ?_⟩
  rw [marks_flatten hclosed, List.map_map, List.map_map]
  refine congrArg _ (List.map_congr_left fun p _ => ?_)
  rw [Function.comp_apply, marks_plain (hplain p)]
  simp [bracketMarks, plain]

variable {s : Stage Invocation}

/-- A filter with its labels as it stands in the text of a graph. -/
theorem marks_text (h : s.filter.IsReadable) :
    Closed s.text.toList ∧ marks s.text.toList =
      ((s.inputs.map Pad.label).map bracketMarks).flatten ++
        (marks s.filter.text.toList ++ ((s.outputs.map Pad.label).map bracketMarks).flatten) := by
  obtain ⟨hin, hmin⟩ := marks_bracketed s.inputs
  obtain ⟨hout, hmout⟩ := marks_bracketed s.outputs
  have hfilter := h.marks_text.1
  rw [text, String.toList_append, String.toList_append, List.append_assoc]
  refine ⟨hin.append (hfilter.append hout), ?_⟩
  rw [hin, hfilter, hmin, hmout]

theorem notMem_marks_text (h : s.filter.IsReadable) : ⟨false, ';'⟩ ∉ marks s.text.toList := by
  have hlabels : ∀ pads : List Pad, ⟨false, ';'⟩ ∉ ((pads.map Pad.label).map bracketMarks).flatten := by
    intro pads hm
    rw [← (marks_bracketed pads).2, toList_join_bracketed, marks_plain, mem_plain] at hm
    · obtain ⟨cs, hcs, hm⟩ := List.mem_flatten.1 hm
      obtain ⟨p, _, rfl⟩ := List.mem_map.1 hcs
      exact notMem_bracketed (by decide) (by decide) hm
    · intro hm
      obtain ⟨cs, hcs, hm⟩ := List.mem_flatten.1 hm
      obtain ⟨p, _, rfl⟩ := List.mem_map.1 hcs
      exact notMem_bracketed (by decide) (by decide) hm
  rw [(marks_text h).2, List.mem_append, List.mem_append, not_or, not_or]
  exact ⟨hlabels _, h.notMem_marks (by decide), hlabels _⟩

/-- A filter with its labels is read as it was written. -/
theorem node_marks (h : s.filter.IsReadable) :
    node (marks s.text.toList) = ⟨s.inputs.map Pad.label, s.filter, s.outputs.map Pad.label⟩ := by
  have hlabels : ∀ pads : List Pad, ∀ l ∈ pads.map Pad.label, ']' ∉ l.toList := by
    intro pads l hl
    obtain ⟨p, _, rfl⟩ := List.mem_map.1 hl
    exact notMem_label (by decide) (by decide)
  have hopen : ∀ m ∈ marks s.filter.text.toList, decide (m ≠ ⟨false, '['⟩) = true := by
    intro m hm
    rw [decide_eq_true_iff]
    rintro rfl
    exact h.notMem_marks (by decide) hm
  -- A name begins with a character of a word, so no label is read in front of it.
  obtain ⟨m, ms, hfilter⟩ := List.exists_cons_of_ne_nil h.marks_ne_nil
  have hm : m ≠ ⟨false, '['⟩ := by
    have hmem := hopen m (hfilter ▸ List.mem_cons_self)
    exact of_decide_eq_true hmem
  have hout := labels_bracketMarks (hlabels s.outputs) []
  rw [List.append_nil, labels, List.append_nil] at hout
  have houtputs : ∀ ls : List String,
      (ls.map bracketMarks).flatten.takeWhile (fun m => decide (m ≠ ⟨false, '['⟩)) = [] ∧
        (ls.map bracketMarks).flatten.dropWhile (fun m => decide (m ≠ ⟨false, '['⟩)) =
          (ls.map bracketMarks).flatten := by
    intro ls
    cases ls <;> simp [bracketMarks]
  rw [(marks_text h).2, node, labels_bracketMarks (hlabels s.inputs)]
  rw [hfilter, List.cons_append, labels, if_neg hm, ← List.cons_append, ← hfilter]
  simp only
  rw [List.takeWhile_append_of_pos hopen, List.dropWhile_append_of_pos hopen, (houtputs _).1,
    (houtputs _).2, hout, List.append_nil, List.append_nil, h.invocation_marks]

end Stage

namespace Graph

open Decode

/-- The text of a graph is read as the graph, whatever the values of its options are. -/
theorem nodes_text {g : Graph Invocation} (h : ∀ s ∈ g.stages, s.filter.IsReadable) :
    nodes g.text =
      g.stages.map fun s => ⟨s.inputs.map Pad.label, s.filter, s.outputs.map Pad.label⟩ := by
  by_cases hempty : g.stages = []
  · simp [nodes, text, hempty]
  have hclosed : ∀ cs ∈ (g.stages.map Stage.text).map String.toList, Closed cs := by
    intro cs hcs
    rw [List.map_map] at hcs
    obtain ⟨s, hs, rfl⟩ := List.mem_map.1 hcs
    exact (Stage.marks_text (h s hs)).1
  have hsemicolon : ∀ ms ∈ ((g.stages.map Stage.text).map String.toList).map marks,
      ⟨false, ';'⟩ ∉ ms := by
    intro ms hms
    rw [List.map_map, List.map_map] at hms
    obtain ⟨s, hs, rfl⟩ := List.mem_map.1 hms
    exact Stage.notMem_marks_text (h s hs)
  have hmarks : marks g.text.toList =
      [⟨false, ';'⟩].intercalate (((g.stages.map Stage.text).map String.toList).map marks) := by
    rw [text, String.toList_intercalate]
    exact (closed_marks_intercalate (c := ';') (by decide) hclosed).2
  have htext : g.text.isEmpty = false := by
    rw [Bool.eq_false_iff]
    intro htext
    obtain ⟨s, rest, hs⟩ := List.exists_cons_of_ne_nil hempty
    have hreadable := h s (hs ▸ List.mem_cons_self)
    rw [String.isEmpty_iff.1 htext, hs] at hmarks
    have hnil := eq_nil_of_intercalate_eq_nil hmarks.symm
    rw [(Stage.marks_text hreadable).2, List.append_eq_nil_iff, List.append_eq_nil_iff] at hnil
    exact hreadable.marks_ne_nil hnil.2.1
  rw [nodes, htext, if_neg Bool.false_ne_true, hmarks,
    List.splitOn_intercalate _ hsemicolon (by simpa using hempty), List.map_map, List.map_map,
    List.map_map]
  exact List.map_congr_left fun s hs => Stage.node_marks (h s hs)

end Graph
end Montage
