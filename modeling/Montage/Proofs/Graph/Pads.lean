import Mathlib.Algebra.Order.Group.Multiset
import Mathlib.Data.Multiset.UnionInter
import Mathlib.Tactic.Abel
import Montage.Graph.Basic
import Std.Data.String.ToNat

/-!
# Pads of a graph

Which pads a graph offers and which it reads, and the condition that streams are led through it
without a loose end.

**Input.** A graph, and the labels of the pads that are kept for the output.

**Results.**
* `Pad.label_injective`: pads are told apart by their labels.
* `Graph.Wired`: every pad is offered once and read once, after it was offered, and only the kept
  pads are left.
-/

namespace Montage
namespace Pad

/-- A pad that a filter offers. -/
def IsOutput (p : Pad) : Prop :=
  ∃ kind id, p = .output kind id

theorem isOutput_output (kind : StreamKind) (id : Nat) : (output kind id).IsOutput :=
  ⟨kind, id, rfl⟩

theorem letter_injective {k l : StreamKind} (h : k.letter = l.letter) : k = l := by
  cases k <;> cases l <;> simp_all [StreamKind.letter]

theorem toList_label_input (index : Nat) (kind : StreamKind) :
    (input index kind).label.toList =
      Nat.toDigits 10 index ++ [':', kind.letter, ':', '0'] := by
  simp [label, Nat.toList_repr]

theorem toList_label_output (kind : StreamKind) (id : Nat) :
    (output kind id).label.toList = kind.letter :: Nat.toDigits 10 id := by
  simp [label, Nat.toList_repr]

theorem toDigits_injective {m n : Nat} (h : Nat.toDigits 10 m = Nat.toDigits 10 n) : m = n := by
  have h' := congrArg (Nat.ofDigitChars 10 · 0) h
  simpa using h'

/-- The label of an input begins with a digit, that of an output with a letter. -/
theorem label_input_ne_output (index id : Nat) (k l : StreamKind) :
    (input index k).label ≠ (output l id).label := by
  intro h
  have hl := congrArg String.toList h
  rw [toList_label_input, toList_label_output] at hl
  cases hd : Nat.toDigits 10 index with
  | nil => exact Nat.toDigits_ne_nil hd
  | cons c cs =>
      have hc : c.isDigit := Nat.isDigit_of_mem_toDigits (by decide) (by decide) (hd ▸ List.mem_cons_self)
      rw [hd, List.cons_append, List.cons.injEq] at hl
      rw [hl.1] at hc
      cases l <;> simp [StreamKind.letter] at hc

theorem label_injective : Function.Injective label := by
  intro p q h
  cases p with
  | input i k =>
      cases q with
      | input j l =>
          have hl := congrArg String.toList h
          rw [toList_label_input, toList_label_input] at hl
          obtain ⟨hd, ht⟩ := List.append_inj' hl rfl
          have hk : k = l := letter_injective (by simpa using ht)
          rw [toDigits_injective hd, hk]
      | output l id => exact absurd h (label_input_ne_output i id k l)
  | output k id =>
      cases q with
      | input j l => exact absurd h.symm (label_input_ne_output j id l k)
      | output l jd =>
          have hl := congrArg String.toList h
          rw [toList_label_output, toList_label_output, List.cons.injEq] at hl
          rw [letter_injective hl.1, toDigits_injective hl.2]

end Pad

namespace Graph

variable {φ : Type}

/-- The pads that the filters offer, in order. -/
def offers (g : Graph φ) : List Pad :=
  g.stages.flatMap Stage.outputs

/-- The pads that the filters read, in order. -/
def reads (g : Graph φ) : List Pad :=
  g.stages.flatMap Stage.inputs

/-- The labels of a stream of an input that the graph has. -/
def IsInputLabel (g : Graph φ) (l : String) : Prop :=
  ∃ i < g.inputs.length, l = i.repr ++ ":v:0" ∨ l = i.repr ++ ":a:0"

/-- Every label is offered once, read once and not before it is offered; only the kept labels are
left unread. -/
structure Wired (g : Graph φ) (kept : List String) : Prop where
  /-- No label is offered twice. -/
  offered_once : (g.offers.map Pad.label).Nodup
  /-- A filter reads streams of inputs and what filters before it offer. -/
  read_later : ∀ before s after, g.stages = before ++ s :: after → ∀ p ∈ s.inputs,
    g.IsInputLabel p.label ∨ p.label ∈ (before.flatMap Stage.outputs).map Pad.label
  /-- No label is read twice. -/
  read_once : (g.reads.map Pad.label).Nodup
  /-- What is kept is offered. -/
  kept_offered : ∀ l ∈ kept, l ∈ g.offers.map Pad.label
  /-- Nothing is kept twice. -/
  kept_once : kept.Nodup
  /-- What is offered is read by one filter, or kept and read by none. -/
  read_or_kept : ∀ l ∈ g.offers.map Pad.label,
    (g.reads.map Pad.label).count l = if l ∈ kept then 0 else 1

@[simp] theorem offers_empty : (empty : Graph φ).offers = [] := rfl

@[simp] theorem reads_empty : (empty : Graph φ).reads = [] := rfl

@[simp] theorem offers_push (g : Graph φ) (inputs : List Pad) (filter : φ)
    (kinds : List StreamKind) :
    (g.push inputs filter kinds).2.offers = g.offers ++ freshPads g.next kinds := by
  simp [push, offers]

@[simp] theorem reads_push (g : Graph φ) (inputs : List Pad) (filter : φ)
    (kinds : List StreamKind) :
    (g.push inputs filter kinds).2.reads = g.reads ++ inputs := by
  simp [push, reads]

@[simp] theorem offers_addInput (g : Graph φ) (i : Input) : (g.addInput i).2.offers = g.offers :=
  rfl

@[simp] theorem reads_addInput (g : Graph φ) (i : Input) : (g.addInput i).2.reads = g.reads :=
  rfl

@[simp] theorem inputs_push (g : Graph φ) (inputs : List Pad) (filter : φ)
    (kinds : List StreamKind) : (g.push inputs filter kinds).2.inputs = g.inputs :=
  rfl

theorem freshPads_lt (next : Nat) (kinds : List StreamKind) :
    ∀ p ∈ freshPads next kinds, ∃ kind id, p = .output kind id ∧ id < next + kinds.length := by
  induction kinds generalizing next with
  | nil => simp [freshPads]
  | cons kind kinds ih =>
      intro p hp
      rcases List.mem_cons.1 hp with rfl | hp
      · exact ⟨kind, next, rfl, by simp⟩
      · obtain ⟨k, id, rfl, h⟩ := ih (next + 1) p hp
        exact ⟨k, id, rfl, by simp only [List.length_cons]; omega⟩

theorem freshPads_nodup (next : Nat) (kinds : List StreamKind) : (freshPads next kinds).Nodup := by
  induction kinds generalizing next with
  | nil => simp [freshPads]
  | cons kind kinds ih =>
      refine List.nodup_cons.2 ⟨?_, ih (next + 1)⟩
      intro h
      obtain ⟨k, id, hp, hle⟩ := freshPads_ge (next + 1) kinds _ h
      simp only [Pad.output.injEq] at hp
      omega

/-- A filter of a graph that was added to is the added one or one of those before it. -/
theorem stages_push_eq {g : Graph φ} {inputs : List Pad} {filter : φ} {kinds : List StreamKind}
    {before after : List (Stage φ)} {s : Stage φ}
    (h : (g.push inputs filter kinds).2.stages = before ++ s :: after) :
    (before = g.stages ∧ s = ⟨inputs, filter, freshPads g.next kinds⟩) ∨
      ∃ rest, g.stages = before ++ s :: rest := by
  rcases List.eq_nil_or_concat after with rfl | ⟨rest, last, rfl⟩
  · left
    obtain ⟨hb, hs⟩ := List.append_inj' h rfl
    exact ⟨hb.symm, (List.singleton_inj.1 hs).symm⟩
  · right
    refine ⟨rest, ?_⟩
    have h' : g.stages ++ [⟨inputs, filter, freshPads g.next kinds⟩] =
        (before ++ s :: rest) ++ [last] := by
      simpa [push] using h
    exact (List.append_inj' h' rfl).1

end Graph
end Montage
