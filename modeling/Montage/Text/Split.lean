import Montage.Text.Blank

/-!
# Cutting texts

Cuts of a text at a character, at its first or last occurrence, and at a known beginning or end.

**Input.** A text as a list of characters, and the character or text to cut at.

**Algorithm.** One pass over the text.

**Results.** The pieces joined by what was cut give the text back (`splitFirst?_eq_some`,
`stripEnd?_eq_some`).
-/

namespace Montage
namespace Text

/-- The parts before and after the first `sep`. -/
def splitFirst? (sep : Char) : List Char → Option (List Char × List Char)
  | [] => none
  | c :: cs =>
      if c = sep then
        some ([], cs)
      else
        (splitFirst? sep cs).map fun (front, back) => (c :: front, back)

/-- The parts before and after the last `sep`. -/
def splitLast? (sep : Char) (cs : List Char) : Option (List Char × List Char) :=
  (splitFirst? sep cs.reverse).map fun (back, front) => (front.reverse, back.reverse)

/-- What follows `front` at the beginning of a text. -/
def stripStart? : List Char → List Char → Option (List Char)
  | [], cs => some cs
  | _ :: _, [] => none
  | f :: fs, c :: cs => if f = c then stripStart? fs cs else none

/-- What stands before `back` at the end of a text. -/
def stripEnd? (back cs : List Char) : Option (List Char) :=
  (stripStart? back.reverse cs.reverse).map List.reverse

/-- The parts before and after the first occurrence of `mark`. -/
def splitText? (mark : List Char) : List Char → Option (List Char × List Char)
  | [] => if mark.isEmpty then some ([], []) else none
  | c :: cs =>
      match stripStart? mark (c :: cs) with
      | some back => some ([], back)
      | none => (splitText? mark cs).map fun (front, back) => (c :: front, back)

/-- The pieces between the occurrences of `sep`; a text without any is its only piece. -/
def splitAll (sep : Char) : List Char → List (List Char)
  | [] => [[]]
  | c :: cs =>
      if c = sep then
        [] :: splitAll sep cs
      else
        match splitAll sep cs with
        | [] => [[c]]
        | w :: ws => (c :: w) :: ws

/-- ASCII letters in lower case, all else as it is. -/
def lower (cs : List Char) : List Char :=
  cs.map Char.toLower

/-- The character `c` replaced by the text `out`. -/
def replaceChar (c : Char) (out : List Char) (cs : List Char) : List Char :=
  cs.flatMap fun d => if d = c then out else [d]

theorem splitFirst?_eq_some {sep : Char} {cs front back : List Char}
    (h : splitFirst? sep cs = some (front, back)) :
    cs = front ++ sep :: back ∧ sep ∉ front := by
  induction cs generalizing front with
  | nil => simp [splitFirst?] at h
  | cons c cs ih =>
      by_cases hc : c = sep
      · simp [splitFirst?, hc] at h
        simp [h, hc]
      · simp only [splitFirst?, hc, if_false, Option.map_eq_some_iff] at h
        obtain ⟨⟨f, b⟩, hfb, heq⟩ := h
        obtain ⟨rfl, rfl⟩ := Prod.mk.inj heq
        have := ih hfb
        exact ⟨by simp [this.1], by simp [Ne.symm hc, this.2]⟩

theorem splitFirst?_append {sep : Char} {front : List Char} (h : sep ∉ front) (back : List Char) :
    splitFirst? sep (front ++ sep :: back) = some (front, back) := by
  induction front with
  | nil => simp [splitFirst?]
  | cons c front ih =>
      obtain ⟨hc, hfront⟩ := not_or.1 (mt List.mem_cons.2 h)
      simp [splitFirst?, Ne.symm hc, ih hfront]

theorem splitLast?_eq_some {sep : Char} {cs front back : List Char}
    (h : splitLast? sep cs = some (front, back)) : cs = front ++ sep :: back ∧ sep ∉ back := by
  obtain ⟨⟨b, f⟩, hfb, heq⟩ := Option.map_eq_some_iff.1 h
  obtain ⟨rfl, rfl⟩ := Prod.mk.inj heq
  obtain ⟨hcs, hb⟩ := splitFirst?_eq_some hfb
  refine ⟨?_, mt List.mem_reverse.1 hb⟩
  rw [← List.reverse_inj, hcs]
  simp

theorem splitLast?_append {sep : Char} {back : List Char} (front : List Char) (h : sep ∉ back) :
    splitLast? sep (front ++ sep :: back) = some (front, back) := by
  have hreverse : (front ++ sep :: back).reverse = back.reverse ++ sep :: front.reverse := by
    simp
  rw [splitLast?, hreverse, splitFirst?_append (mt List.mem_reverse.1 h)]
  simp

theorem stripStart?_eq_some_iff {front cs rest : List Char} :
    stripStart? front cs = some rest ↔ cs = front ++ rest := by
  induction front generalizing cs with
  | nil => simp [stripStart?]
  | cons f fs ih =>
      cases cs with
      | nil => simp [stripStart?]
      | cons c cs =>
          by_cases h : f = c
          · simp [stripStart?, h, ih]
          · simp [stripStart?, h, Ne.symm h]

theorem stripEnd?_eq_some {back cs front : List Char} (h : stripEnd? back cs = some front) :
    cs = front ++ back := by
  obtain ⟨r, hr, rfl⟩ := Option.map_eq_some_iff.1 h
  have := congrArg List.reverse (stripStart?_eq_some_iff.1 hr)
  simpa using this

theorem splitAll_ne_nil (sep : Char) (cs : List Char) : splitAll sep cs ≠ [] := by
  cases cs with
  | nil => simp [splitAll]
  | cons c cs =>
      by_cases h : c = sep
      · simp [splitAll, h]
      · simp only [splitAll, h, if_false]
        split <;> simp

end Text
end Montage
