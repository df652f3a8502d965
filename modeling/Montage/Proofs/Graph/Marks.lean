import Mathlib.Data.List.TakeWhile
import Montage.Graph.Text

/-!
# Escaped characters

A text in which backslashes escape characters is read as a list of marked characters: each without
its backslash, and with a mark whether it had one.

**Input.** The characters of a text.

**Results.**
* `marks_escapeWith`: escaping marks the special characters, and no others.
* `marks_intercalate`: texts that are closed are read one after the other.
-/

namespace Montage
namespace Decode

/-- A character, and whether a backslash stood before it. -/
structure Mark where
  escaped : Bool
  char : Char
  deriving Repr, DecidableEq

/-- Reads characters, the first of them after a backslash or not. A backslash at the very end stands
for itself. -/
def marksFrom : Bool → List Char → List Mark
  | false, [] => []
  | true, [] => [⟨false, '\\'⟩]
  | true, c :: rest => ⟨true, c⟩ :: marksFrom false rest
  | false, c :: rest => if c = '\\' then marksFrom true rest else ⟨false, c⟩ :: marksFrom false rest

def marks (cs : List Char) : List Mark :=
  marksFrom false cs

/-- Characters without backslashes before them. -/
def plain (cs : List Char) : List Mark :=
  cs.map (Mark.mk false)

/-- The characters that a set of special ones leaves marked. -/
def marked (special : List Char) (cs : List Char) : List Mark :=
  cs.map fun c => ⟨special.contains c, c⟩

/-- No backslash at the end of a text waits for a character. -/
def Closed (cs : List Char) : Prop :=
  ∀ rest, marks (cs ++ rest) = marks cs ++ marks rest

@[simp] theorem map_char_plain (cs : List Char) : (plain cs).map Mark.char = cs := by
  induction cs with
  | nil => rfl
  | cons c cs ih => simpa [plain] using ih

@[simp] theorem map_char_marked (special cs : List Char) :
    (marked special cs).map Mark.char = cs := by
  induction cs with
  | nil => rfl
  | cons c cs ih => simpa [marked] using ih

@[simp] theorem mem_plain {c : Char} {cs : List Char} : ⟨false, c⟩ ∈ plain cs ↔ c ∈ cs := by
  simp [plain]

theorem notMem_marked {special : List Char} {c : Char} (h : c ∈ special) (cs : List Char) :
    ⟨false, c⟩ ∉ marked special cs := by
  intro hm
  obtain ⟨d, _, hd⟩ := List.mem_map.1 hm
  obtain ⟨he, rfl⟩ := Mark.mk.inj hd
  exact Bool.eq_false_iff.1 he (List.contains_iff_mem.2 h)

theorem eq_or_exists_of_mem_intercalate {α : Type} {a b : α} {l : List (List α)}
    (h : b ∈ [a].intercalate l) : b = a ∨ ∃ x ∈ l, b ∈ x := by
  induction l with
  | nil => simp at h
  | cons x l ih =>
      cases l with
      | nil => exact Or.inr ⟨x, List.mem_cons_self, by simpa using h⟩
      | cons y l =>
          rw [List.intercalate_cons_cons, List.mem_append, List.mem_append,
            List.mem_singleton] at h
          rcases h with (h | h) | h
          · exact Or.inr ⟨x, List.mem_cons_self, h⟩
          · exact Or.inl h
          · rcases ih h with h | ⟨z, hz, hb⟩
            · exact Or.inl h
            · exact Or.inr ⟨z, List.mem_cons_of_mem _ hz, hb⟩

theorem eq_nil_of_intercalate_eq_nil {α : Type} {a : α} {x : List α} {l : List (List α)}
    (h : [a].intercalate (x :: l) = []) : x = [] := by
  cases l with
  | nil => simpa using h
  | cons y l => simp [List.intercalate_cons_cons] at h

theorem map_intercalate {α β : Type} (f : α → β) (a : α) (l : List (List α)) :
    ([a].intercalate l).map f = [f a].intercalate (l.map (List.map f)) := by
  induction l with
  | nil => rfl
  | cons x l ih =>
      cases l with
      | nil => simp
      | cons y l =>
          rw [List.intercalate_cons_cons, List.map_append, List.map_append, ih]
          simp only [List.map_cons, List.map_nil]
          rw [List.intercalate_cons_cons]

theorem marks_plain_append {cs : List Char} (h : '\\' ∉ cs) (rest : List Char) :
    marks (cs ++ rest) = plain cs ++ marks rest := by
  induction cs with
  | nil => rfl
  | cons c cs ih =>
      have hc : c ≠ '\\' := fun hc => h (hc ▸ List.mem_cons_self)
      have hcs := ih fun hm => h (List.mem_cons_of_mem _ hm)
      simp only [marks, plain, List.map_cons, List.cons_append] at hcs ⊢
      rw [marksFrom, if_neg hc, hcs]

theorem marks_escapeWith_append {special : List Char} (h : '\\' ∈ special) (cs rest : List Char) :
    marks (Invocation.escapeWith special cs ++ rest) = marked special cs ++ marks rest := by
  induction cs with
  | nil => rfl
  | cons c cs ih =>
      simp only [marks, marked, Invocation.escapeWith, List.flatMap_cons, List.map_cons,
        List.append_assoc, List.cons_append] at ih ⊢
      by_cases hc : special.contains c = true
      · simp only [hc, if_true, List.cons_append, List.nil_append]
        rw [marksFrom, if_pos rfl, marksFrom, ih]
      · have hne : c ≠ '\\' := by
          rintro rfl
          exact hc (List.contains_iff_mem.2 h)
        simp only [hc, Bool.false_eq_true, if_false, List.cons_append, List.nil_append]
        rw [marksFrom, if_neg hne, ih]

/-- A text without backslashes is read as it stands. -/
theorem marks_plain {cs : List Char} (h : '\\' ∉ cs) : marks cs = plain cs := by
  simpa [marks, marksFrom] using marks_plain_append h []

/-- Escaping marks the special characters. -/
theorem marks_escapeWith {special : List Char} (h : '\\' ∈ special) (cs : List Char) :
    marks (Invocation.escapeWith special cs) = marked special cs := by
  simpa [marks, marksFrom] using marks_escapeWith_append h cs []

theorem closed_plain {cs : List Char} (h : '\\' ∉ cs) : Closed cs := by
  intro rest
  rw [marks_plain_append h, marks_plain h]

theorem closed_escapeWith {special : List Char} (h : '\\' ∈ special) (cs : List Char) :
    Closed (Invocation.escapeWith special cs) := by
  intro rest
  rw [marks_escapeWith_append h, marks_escapeWith h]

theorem Closed.append {cs ds : List Char} (hc : Closed cs) (hd : Closed ds) : Closed (cs ++ ds) := by
  intro rest
  rw [List.append_assoc, hc, hd, hc, List.append_assoc]

theorem closed_flatten {l : List (List Char)} (h : ∀ cs ∈ l, Closed cs) : Closed l.flatten := by
  induction l with
  | nil => exact fun rest => rfl
  | cons cs l ih =>
      rw [List.flatten_cons]
      exact (h cs List.mem_cons_self).append (ih fun ds hd => h ds (List.mem_cons_of_mem _ hd))

theorem marks_flatten {l : List (List Char)} (h : ∀ cs ∈ l, Closed cs) :
    marks l.flatten = (l.map marks).flatten := by
  induction l with
  | nil => rfl
  | cons cs l ih =>
      rw [List.flatten_cons, h cs List.mem_cons_self, ih fun ds hd => h ds (List.mem_cons_of_mem _ hd),
        List.map_cons, List.flatten_cons]

/-- Closed texts with a separator between them are read one after the other. -/
theorem closed_marks_intercalate {c : Char} (hc : c ≠ '\\') {l : List (List Char)}
    (h : ∀ cs ∈ l, Closed cs) :
    Closed ([c].intercalate l) ∧
      marks ([c].intercalate l) = [⟨false, c⟩].intercalate (l.map marks) := by
  have hsep : Closed [c] := closed_plain (by simpa using hc.symm)
  have hmarks : marks [c] = [⟨false, c⟩] := marks_plain (by simpa using hc.symm)
  induction l with
  | nil => exact ⟨fun rest => rfl, rfl⟩
  | cons cs l ih =>
      have hcs := h cs List.mem_cons_self
      obtain ⟨hl, hm⟩ := ih fun ds hd => h ds (List.mem_cons_of_mem _ hd)
      cases l with
      | nil => exact ⟨by simpa using hcs, by simp⟩
      | cons ds l =>
          rw [List.intercalate_cons_cons, List.map_cons, List.map_cons, List.intercalate_cons_cons]
          rw [List.map_cons] at hm
          refine ⟨(hcs.append hsep).append hl, ?_⟩
          rw [List.append_assoc, hcs, hsep, hm, hmarks, List.append_assoc]

end Decode
end Montage
