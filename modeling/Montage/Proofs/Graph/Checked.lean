import Montage.Proofs.Graph.Value

/-!
# Checked filters

Whether every filter of a graph can work with what it reads.

**Input.** A reading, and a check of what each filter reads.

**Algorithm.** Beside its value every pad carries whether all filters before it pass the check. Where
the pads that are left open do, every filter does, because what a filter offers is read by a later
one or left open.

**Results.**
* `Linear.value_of_mem`: what a filter offers has the value that the reading says.
* `Linear.passes`: every filter passes the check.
-/

namespace Montage

variable {α τ π : Type}

/-- A reading that also tells of every pad whether the filters before it pass a check. -/
def Reading.checked (r : Reading α τ π) (fits : Filter τ π → List α → Prop) :
    Reading (α × Prop) τ π where
  input i kind := (r.input i kind, True)
  filter f as kind := (r.filter f (as.map Prod.fst) kind, (∀ a ∈ as, a.2) ∧ fits f (as.map Prod.fst))

namespace Reading

variable {r : Reading α τ π} {fits : Filter τ π → List α → Prop}

theorem mapM_map {β : Type} (known : Pad → Option β) (f : β → α) (pads : List Pad) :
    (pads.mapM fun p => (known p).map f) = (pads.mapM known).map (List.map f) := by
  induction pads with
  | nil => rfl
  | cons p pads ih =>
      rw [List.mapM_cons, List.mapM_cons, ih]
      cases known p <;> cases pads.mapM known <;> rfl

/-- The check does not change what a filter makes of its inputs. -/
theorem learn_checked (known : Pad → Option (α × Prop)) (s : Stage (Filter τ π)) :
    (fun p => ((r.checked fits).learn known s p).map Prod.fst) =
      r.learn (fun p => (known p).map Prod.fst) s := by
  funext p
  unfold learn
  split
  · rw [mapM_map, Option.map_map, Option.map_map]
    rfl
  · rfl

theorem foldl_learn_checked (stages : List (Stage (Filter τ π)))
    (known : Pad → Option (α × Prop)) :
    (fun p => (stages.foldl (r.checked fits).learn known p).map Prod.fst) =
      stages.foldl r.learn fun p => (known p).map Prod.fst := by
  induction stages generalizing known with
  | nil => rfl
  | cons s stages ih => rw [List.foldl_cons, List.foldl_cons, ih, learn_checked]

end Reading

namespace Graph

variable {g : Graph (Filter τ π)} {r : Reading α τ π} {fits : Filter τ π → List α → Prop}
  {free : Multiset Pad}

/-- The check does not change what a pad carries. -/
theorem fst_value_checked (g : Graph (Filter τ π)) (r : Reading α τ π)
    (fits : Filter τ π → List α → Prop) :
    (fun p => (g.value (r.checked fits) p).map Prod.fst) = g.value r := by
  unfold value
  rw [Reading.foldl_learn_checked]
  congr 1
  funext p
  cases p with
  | input i kind =>
      simp only [Reading.atInputs, Option.map_map]
      rfl
  | output kind id => rfl

theorem value_eq_of_checked {p : Pad} {a : α} {b : Prop}
    (h : g.value (r.checked fits) p = some (a, b)) : g.value r p = some a := by
  rw [← fst_value_checked g r fits]
  simp only [h, Option.map_some]

theorem Grows.of_checked {g' : Graph (Filter τ π)} (h : g.Grows (r.checked fits) g') :
    g.Grows r g' where
  stages := h.stages
  value := by
    intro p a hv
    rw [← fst_value_checked g r fits] at hv
    obtain ⟨⟨_, b⟩, hb, rfl⟩ := Option.map_eq_some_iff.1 hv
    exact value_eq_of_checked (h.value p _ hb)

/-- All filters before a pad pass the check. -/
def Passes (g : Graph (Filter τ π)) (r : Reading α τ π) (fits : Filter τ π → List α → Prop)
    (p : Pad) : Prop :=
  ∃ a, g.value (r.checked fits) p = some (a, True)

namespace Linear

/-- What a filter offers has the value that the reading says. -/
theorem value_of_mem (h : g.Linear free) {s : Stage (Filter τ π)} (hs : s ∈ g.stages) {p : Pad}
    (hp : p ∈ s.outputs) :
    g.value r p = (s.inputs.mapM (g.value r)).map fun as => r.filter s.filter as p.kind := by
  obtain ⟨before, after, he⟩ := List.append_of_mem hs
  have hnodup := h.offers_nodup
  rw [offers, he, List.flatMap_append, List.flatMap_cons, List.nodup_append',
    List.nodup_append'] at hnodup
  obtain ⟨-, ⟨-, -, hafter⟩, hbefore⟩ := hnodup
  have hread := h.read_later before s after he
  have hvalue : g.value r = after.foldl r.learn
      (r.learn (before.foldl r.learn (r.atInputs g.inputs)) s) := by
    rw [value, he, List.foldl_append, List.foldl_cons]
  -- What the filter reads is not offered by itself or a later one.
  have hin : s.inputs.mapM (g.value r) =
      s.inputs.mapM (before.foldl r.learn (r.atInputs g.inputs)) := by
    refine Reading.mapM_known_congr fun q hq => ?_
    have hnot : q ∉ s.outputs ++ after.flatMap Stage.outputs := by
      intro hq'
      rcases hread q hq with hr | hb
      · have hoffer : q ∈ g.offers := by
          rw [offers, he, List.flatMap_append, List.flatMap_cons]
          exact List.mem_append.2 (Or.inr hq')
        obtain ⟨k, id, rfl, _⟩ := h.offers_lt q hoffer
        exact hr.not_isOutput (Pad.isOutput_output k id)
      · exact hbefore hb hq'
    rw [List.mem_append, not_or] at hnot
    rw [hvalue, Reading.foldl_learn_of_notMem hnot.2, Reading.learn, if_neg hnot.1]
  rw [hin, hvalue, Reading.foldl_learn_of_notMem (hafter hp), Reading.learn, if_pos hp]

/-- What a filter offers that offers something later passes only if what it reads does. -/
theorem passes_inputs (h : g.Linear free) {s : Stage (Filter τ π)} (hs : s ∈ g.stages) {p : Pad}
    (hp : p ∈ s.outputs) (hpass : g.Passes r fits p) :
    (∀ q ∈ s.inputs, g.Passes r fits q) ∧
      ∃ as, s.inputs.mapM (g.value r) = some as ∧ fits s.filter as := by
  obtain ⟨a, ha⟩ := hpass
  rw [h.value_of_mem hs hp, Option.map_eq_some_iff] at ha
  obtain ⟨as, has, ha⟩ := ha
  obtain ⟨-, hflag⟩ := Prod.mk.inj ha
  obtain ⟨hall, hfits⟩ := of_eq_true hflag
  constructor
  · intro q hq
    obtain ⟨b, hb, hv⟩ := exists_of_forall₂ (mapM_eq_some_iff.1 has) hq
    exact ⟨b.1, by rw [hv, ← eq_true (hall b hb)]⟩
  · refine ⟨as.map Prod.fst, ?_, hfits⟩
    rw [← fst_value_checked g r fits, Reading.mapM_map, has, Option.map_some]

/-- What is offered in a graph is read by a later filter or left open. -/
theorem mem_free_or_read (h : g.Linear free) {before after : List (Stage (Filter τ π))}
    {s : Stage (Filter τ π)} (he : g.stages = before ++ s :: after) {p : Pad}
    (hp : p ∈ s.outputs) : p ∈ free ∨ ∃ s' ∈ after, p ∈ s'.inputs := by
  have hoffer : p ∈ g.offers :=
    List.mem_flatMap.2 ⟨s, by simp [he], hp⟩
  obtain ⟨taken, _, _, hb⟩ := h.balance
  have hm : p ∈ (g.reads : Multiset Pad) + free := by
    rw [hb]
    exact Multiset.mem_add.2 (Or.inl (Multiset.mem_coe.2 hoffer))
  rcases Multiset.mem_add.1 hm with hread | hfree
  · right
    obtain ⟨s', hs', hp'⟩ := List.mem_flatMap.1 (Multiset.mem_coe.1 hread)
    -- A filter reads only what was offered before it.
    have hlate : ∀ b c, g.stages = b ++ s' :: c → s ∉ s' :: c := by
      intro b c hbc hmem
      have hnodup := h.offers_nodup
      rw [offers, hbc, List.flatMap_append, List.nodup_append'] at hnodup
      rcases h.read_later b s' c hbc p hp' with hr | hq
      · obtain ⟨k, id, rfl, _⟩ := h.offers_lt p hoffer
        exact hr.not_isOutput (Pad.isOutput_output k id)
      · exact hnodup.2.2 hq (List.mem_flatMap.2 ⟨s, hmem, hp⟩)
    rw [he, List.mem_append, List.mem_cons] at hs'
    rcases hs' with hs' | rfl | hs'
    · obtain ⟨b, c, rfl⟩ := List.append_of_mem hs'
      exact absurd (by simp) (hlate b (c ++ s :: after) (by simp [he]))
    · exact absurd List.mem_cons_self (hlate before after he)
    · exact ⟨s', hs', hp'⟩
  · exact Or.inl hfree

/-- Where what is left open passes the check, every filter does. -/
theorem passes (h : g.Linear free) (hoffer : ∀ s ∈ g.stages, s.outputs ≠ [])
    (hfree : ∀ p ∈ free, g.Passes r fits p) :
    ∀ s ∈ g.stages, ∃ as, s.inputs.mapM (g.value r) = some as ∧ fits s.filter as := by
  -- From the last filter back, everything that is offered passes.
  have hback : ∀ after before, g.stages = before ++ after →
      ∀ s ∈ after, ∀ p ∈ s.outputs, g.Passes r fits p := by
    intro after
    induction after with
    | nil => simp
    | cons s after ih =>
        intro before he
        have hlater := ih (before ++ [s]) (by simp [he])
        intro s' hs' p hp
        rcases List.mem_cons.1 hs' with rfl | hs'
        · rcases h.mem_free_or_read he hp with hp | ⟨t, ht, hp'⟩
          · exact hfree p hp
          · have hmem : t ∈ g.stages := by simp [he, ht]
            obtain ⟨q, hq⟩ := List.exists_mem_of_ne_nil _ (hoffer t hmem)
            exact (h.passes_inputs hmem hq (hlater t ht q hq)).1 p hp'
        · exact hlater s' hs' p hp
  intro s hs
  obtain ⟨p, hp⟩ := List.exists_mem_of_ne_nil _ (hoffer s hs)
  exact (h.passes_inputs hs hp (hback g.stages [] rfl s hs p hp)).2

end Linear
end Graph
end Montage
