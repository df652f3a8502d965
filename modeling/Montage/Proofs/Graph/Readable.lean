import Montage.Proofs.Graph.Decode

/-!
# Every graph of filters can be read back

**Input.** A filter with its values.

**Algorithm.** The names of a filter and of its options are fixed words. A value without a name is a
number or one of a few fixed texts, and none of them begins with a word and an equals sign.

**Results.**
* `Filter.isReadable_invocation`: every filter is written in a way that can be read back.
* `Graph.decoded_text`: the text of a graph is read as the graph that was built.
-/

namespace Montage
namespace Decode

theorem isKeyed_iff (s : String) :
    IsKeyed s ↔ s.toList.takeWhile isWordChar ≠ [] ∧
      (s.toList.dropWhile isWordChar).head? = some '=' := by
  have heq : isWordChar '=' = false := by decide
  constructor
  · rintro ⟨key, rest, ⟨hne, hword⟩, hs⟩
    rw [hs, List.takeWhile_append_of_pos hword, List.dropWhile_append_of_pos hword,
      List.dropWhile_cons_of_neg (by simp [heq])]
    exact ⟨fun h => hne (List.append_eq_nil_iff.1 h).1, rfl⟩
  · rintro ⟨hne, hhead⟩
    obtain ⟨rest, hrest⟩ := List.head?_eq_some_iff.1 hhead
    refine ⟨String.ofList (s.toList.takeWhile isWordChar), rest, ⟨by simpa using hne, ?_⟩, ?_⟩
    · intro c hc
      rw [String.toList_ofList] at hc
      exact List.mem_takeWhile_imp hc
    · rw [String.toList_ofList, ← hrest, List.takeWhile_append_dropWhile]

instance (s : String) : Decidable (IsWord s) :=
  decidable_of_iff (s.toList ≠ [] ∧ s.toList.all isWordChar = true)
    (and_congr_right fun _ => List.all_eq_true)

instance (s : String) : Decidable (IsKeyed s) :=
  decidable_of_iff _ (isKeyed_iff s).symm

theorem not_isKeyed_of_notMem {s : String} (h : '=' ∉ s.toList) : ¬ IsKeyed s := by
  rintro ⟨key, rest, _, hs⟩
  exact h (by simp [hs])

end Decode

namespace Invocation

instance (i : Invocation) : Decidable i.IsReadable :=
  decidable_of_iff
    (Decode.IsWord i.name ∧ (∀ o ∈ i.options, ∀ key ∈ o.1, Decode.IsWord key) ∧
      ∀ o ∈ i.options, o.1 = none → ¬ Decode.IsKeyed o.2)
    ⟨fun h => ⟨h.1, h.2.1, h.2.2⟩, fun h => ⟨h.name, h.keys, h.values⟩⟩

end Invocation

/-- Texts of numbers have no equals sign. -/
theorem notMem_toDigits (n : Nat) : '=' ∉ Nat.toDigits 10 n := by
  intro h
  have := Nat.isDigit_of_mem_toDigits (by decide) (by decide) h
  simp at this

theorem notMem_repr (n : Int) : '=' ∉ n.repr.toList := by
  cases n with
  | ofNat m =>
      rw [Int.repr, Nat.toList_repr]
      exact notMem_toDigits m
  | negSucc m =>
      rw [Int.repr]
      simpa using notMem_toDigits m.succ

theorem notMem_places (n : Nat) (e : Decimal.Exact) : '=' ∉ (e.places n).toList := by
  cases e with
  | undefined => exact (by decide : '=' ∉ "NaN".toList)
  | infinite negative =>
      cases negative with
      | false => exact (by decide : '=' ∉ "inf".toList)
      | true => exact (by decide : '=' ∉ "-inf".toList)
  | finite negative num den =>
      have hdigits : ∀ m, '=' ∉ Decimal.Exact.padZeros (n + 1) (Nat.toDigits 10 m) := by
        intro m h
        rcases List.mem_append.1 h with h | h
        · have := List.eq_of_mem_replicate h
          simp at this
        · exact notMem_toDigits m h
      simp only [Decimal.Exact.places, String.toList_ofList, List.mem_append, not_or]
      refine ⟨⟨⟨?_, ?_⟩, ?_⟩, ?_⟩
      · split <;> decide
      · exact fun h => hdigits _ (List.mem_of_mem_take h)
      · split <;> decide
      · exact fun h => hdigits _ (List.mem_of_mem_drop h)

theorem notMem_text {τ : Type} [Timescale τ] (t : τ) : '=' ∉ (Timescale.text t).toList := by
  have hdrop : ∀ (c : Char) (cs : List Char), '=' ∉ cs → '=' ∉ (cs.reverse.dropWhile (· == c)).reverse := by
    intro c cs hcs h
    rw [List.mem_reverse] at h
    exact hcs (List.mem_reverse.1 ((List.dropWhile_sublist _).subset h))
  unfold Timescale.text
  simp only
  split
  · decide
  · rw [String.toList_ofList]
    exact hdrop _ _ (hdrop _ _ (notMem_places 6 _))

namespace Filter

open Decode

@[simp] theorem isReadableOption_named (key value : String) :
    IsReadableOption (named key value) ↔ IsWord key := by
  simp [IsReadableOption, named]

@[simp] theorem isReadableOption_positional (value : String) :
    IsReadableOption (positional value) ↔ ¬ IsKeyed value := by
  simp [IsReadableOption, positional]

theorem isReadableOption_of_mem_optional {α : Type} {key : String} {write : α → String}
    {a : Option α} {o : Option String × String} (hk : IsWord key) (h : o ∈ optional key write a) :
    IsReadableOption o := by
  cases a with
  | none => cases h
  | some a =>
      rw [List.mem_singleton.1 h]
      exact (isReadableOption_named key (write a)).2 hk

theorem isReadable_of_options {i : Invocation} (hn : IsWord i.name)
    (ho : ∀ o ∈ i.options, IsReadableOption o) : i.IsReadable :=
  ⟨hn, fun o h => (ho o h).1, fun o h => (ho o h).2⟩

variable {τ π : Type} [Timescale τ] [PixelCount π]

theorem not_isKeyed_sideText (side : Option π) : ¬ IsKeyed (sideText side) := by
  cases side with
  | none => exact (by decide : ¬ IsKeyed "-1")
  | some n => exact not_isKeyed_of_notMem (notMem_repr _)

theorem isWord_name (f : Filter τ π) : IsWord f.invocation.name := by
  cases f with
  | trim kind stop => cases kind <;> simp +decide only [invocation]
  | loop kind => cases kind <;> simp +decide only [invocation]
  | concat segments kind => cases kind <;> simp +decide only [invocation]
  | split kind => cases kind <;> simp +decide only [invocation]
  | sink kind => cases kind <;> simp +decide only [invocation]
  | _ => simp +decide only [invocation]

theorem isReadableOption_of_mem (f : Filter τ π) : ∀ o ∈ f.invocation.options, IsReadableOption o := by
  have htext : ∀ t : τ, ¬ IsKeyed (Timescale.text t) := fun t => not_isKeyed_of_notMem (notMem_text t)
  cases f with
  | trim kind stop => cases kind <;> simp +decide [invocation]
  | loop kind => cases kind <;> simp +decide [invocation]
  | concat segments kind => cases kind <;> simp +decide [invocation]
  | split kind => cases kind <;> simp [invocation]
  | sink kind => cases kind <;> simp [invocation]
  | overlay x y ending => cases ending <;> simp +decide [invocation]
  | drawText text x y face =>
      intro o ho
      simp only [invocation, List.mem_append] at ho
      rcases ho with ((((ho | ho) | ho) | ho) | ho) | ho
      · revert o
        simp +decide
      · exact isReadableOption_of_mem_optional (by decide) ho
      · exact isReadableOption_of_mem_optional (by decide) ho
      · revert o
        simp +decide
      · exact isReadableOption_of_mem_optional (by decide) ho
      · exact isReadableOption_of_mem_optional (by decide) ho
  | _ => simp +decide [invocation, htext, not_isKeyed_sideText]

/-- Every filter is written in a way that can be read back. -/
theorem isReadable_invocation (f : Filter τ π) : f.invocation.IsReadable :=
  isReadable_of_options f.isWord_name f.isReadableOption_of_mem

end Filter

namespace Graph

/-- The text of a graph is read as the graph that was built: the same filters with the same labels,
names, keys and values in the same order, whatever the values are. Every filter of a document is
written so. -/
theorem decoded_text (τ π : Type) [Timescale τ] [PixelCount π] :
    (∀ g : Graph Invocation, (∀ s ∈ g.stages, s.filter.IsReadable) →
      Decode.nodes g.text =
        g.stages.map fun s => ⟨s.inputs.map Pad.label, s.filter, s.outputs.map Pad.label⟩) ∧
    ∀ g : Graph (Filter τ π), Decode.nodes (g.map Filter.invocation).text =
      g.stages.map fun s =>
        ⟨s.inputs.map Pad.label, s.filter.invocation, s.outputs.map Pad.label⟩ := by
  constructor
  · intro g h
    exact nodes_text h
  · intro g
    rw [nodes_text]
    · simp [map]
    · intro s hs
      obtain ⟨t, _, rfl⟩ := List.mem_map.1 hs
      exact t.filter.isReadable_invocation

/-- A text that tries to end its option, its filter and its quotes. -/
def hostile : Invocation :=
  ⟨"drawtext", [(some "text", "a:b'c[v9];x=\\"), (none, ":=;],'\\"), (none, "")]⟩

theorem decoded_text_hostile :
    hostile.IsReadable ∧
      Decode.nodes (⟨[], [⟨[.input 0 .video], hostile, [.output .video 3]⟩], 4⟩ :
        Graph Invocation).text = [⟨["0:v:0"], hostile, ["v3"]⟩] := by
  have hreadable : hostile.IsReadable := by decide
  refine ⟨hreadable, ?_⟩
  rw [(decoded_text Rat Int).1]
  · decide
  · intro s hs
    rw [List.mem_singleton.1 hs]
    exact hreadable

end Graph
end Montage
