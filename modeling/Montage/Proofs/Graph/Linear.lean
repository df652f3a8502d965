import Montage.Proofs.Graph.Pads

/-!
# Linear use of pads

The books of a graph under construction: what was offered or taken from an input is read once or is
still free.

**Input.** A graph and the pads that are still free.

**Algorithm.** A filter that is added takes its inputs from the free pads and gives its outputs to
them. A new input gives its streams.

**Results.**
* `Linear.push`, `Linear.addInput`: adding filters and inputs keeps the books.
* `Linear.wired`: where only kept outputs are free, the graph is wired.
-/

namespace Montage
namespace Graph

variable {φ : Type} {g : Graph φ}

/-- A stream of an input that the graph has. -/
def IsRegistered (g : Graph φ) (p : Pad) : Prop :=
  ∃ i kind, p = .input i kind ∧ i < g.inputs.length

/-- The books of a graph: what is read and what is free is together what is offered, and streams of
inputs, each of them once. -/
structure Linear (g : Graph φ) (free : Multiset Pad) : Prop where
  offers_lt : ∀ p ∈ g.offers, ∃ kind id, p = .output kind id ∧ id < g.next
  offers_nodup : g.offers.Nodup
  read_later : ∀ before s after, g.stages = before ++ s :: after → ∀ p ∈ s.inputs,
    g.IsRegistered p ∨ p ∈ before.flatMap Stage.outputs
  balance : ∃ taken : Multiset Pad, taken.Nodup ∧ (∀ p ∈ taken, g.IsRegistered p) ∧
    (g.reads : Multiset Pad) + free = (g.offers : Multiset Pad) + taken

theorem IsRegistered.not_isOutput {p : Pad} (h : g.IsRegistered p) : ¬ p.IsOutput := by
  obtain ⟨i, k, rfl, _⟩ := h
  rintro ⟨l, id, hp⟩
  cases hp

theorem linear_empty : (empty : Graph φ).Linear 0 where
  offers_lt := by simp
  offers_nodup := by simp
  read_later := by
    intro before s after h
    simp [empty] at h
  balance := ⟨0, by simp, by simp, by simp⟩

namespace Linear

variable {free : Multiset Pad}

/-- No pad stands twice in the books. -/
theorem nodup (h : g.Linear free) : ((g.reads : Multiset Pad) + free).Nodup := by
  obtain ⟨taken, hn, ht, hb⟩ := h.balance
  rw [hb, Multiset.nodup_add]
  refine ⟨Multiset.coe_nodup.2 h.offers_nodup, hn, ?_⟩
  rw [Multiset.disjoint_left]
  intro p hp hp'
  obtain ⟨k, id, hk, _⟩ := h.offers_lt p (Multiset.mem_coe.1 hp)
  exact (ht p hp').not_isOutput ⟨k, id, hk⟩

/-- What is read or free was offered by a filter or an input. -/
theorem mem_known (h : g.Linear free) {p : Pad} (hp : p ∈ g.reads ∨ p ∈ free) :
    g.IsRegistered p ∨ p ∈ g.offers := by
  obtain ⟨taken, _, ht, hb⟩ := h.balance
  have hm : p ∈ (g.reads : Multiset Pad) + free := by
    simpa [Multiset.mem_add] using hp
  rw [hb, Multiset.mem_add] at hm
  rcases hm with hm | hm
  · exact Or.inr (Multiset.mem_coe.1 hm)
  · exact Or.inl (ht p hm)

/-- A number that was not given out yet names no known pad. -/
theorem fresh_notMem (h : g.Linear free) {p : Pad} {kinds : List StreamKind}
    (hp : p ∈ freshPads g.next kinds) : p ∉ g.offers := by
  intro ho
  obtain ⟨k, id, rfl, hge⟩ := freshPads_ge g.next kinds p hp
  obtain ⟨l, jd, he, hlt⟩ := h.offers_lt _ ho
  cases he
  omega

/-- A new filter reads free pads and gives its outputs to them. -/
theorem push {inputs : List Pad} (h : g.Linear (↑inputs + free)) (filter : φ)
    (kinds : List StreamKind) :
    (g.push inputs filter kinds).2.Linear (↑(freshPads g.next kinds) + free) where
  offers_lt := by
    intro p hp
    rw [offers_push, List.mem_append] at hp
    rcases hp with hp | hp
    · obtain ⟨k, id, he, hlt⟩ := h.offers_lt p hp
      exact ⟨k, id, he, Nat.lt_of_lt_of_le hlt (Nat.le_add_right _ _)⟩
    · exact freshPads_lt g.next kinds p hp
  offers_nodup := by
    rw [offers_push, List.nodup_append']
    refine ⟨h.offers_nodup, freshPads_nodup _ _, ?_⟩
    intro p ho hp
    exact h.fresh_notMem hp ho
  read_later := by
    intro before s after hs p hp
    rcases stages_push_eq hs with ⟨rfl, rfl⟩ | ⟨rest, hg⟩
    · exact h.mem_known (Or.inr (Multiset.mem_add.2 (Or.inl (Multiset.mem_coe.2 hp))))
    · exact h.read_later before s rest hg p hp
  balance := by
    obtain ⟨taken, hn, ht, hb⟩ := h.balance
    refine ⟨taken, hn, ht, ?_⟩
    rw [reads_push, offers_push, ← Multiset.coe_add, ← Multiset.coe_add]
    calc (g.reads : Multiset Pad) + ↑inputs + (↑(freshPads g.next kinds) + free)
        = (↑g.reads + (↑inputs + free)) + ↑(freshPads g.next kinds) := by
          ac_rfl
      _ = (↑g.offers + taken) + ↑(freshPads g.next kinds) := by
          rw [hb]
      _ = ↑g.offers + ↑(freshPads g.next kinds) + taken := by
          ac_rfl

/-- A new input gives streams that nothing has read. -/
theorem addInput (h : g.Linear free) (i : Input) {kinds : List StreamKind} (hk : kinds.Nodup) :
    (g.addInput i).2.Linear (↑(kinds.map (Pad.input g.inputs.length)) + free) where
  offers_lt := h.offers_lt
  offers_nodup := h.offers_nodup
  read_later := by
    intro before s after hs p hp
    rcases h.read_later before s after hs p hp with ⟨j, k, rfl, hj⟩ | ho
    · exact Or.inl ⟨j, k, rfl, by simp [Graph.addInput]; omega⟩
    · exact Or.inr ho
  balance := by
    obtain ⟨taken, hn, ht, hb⟩ := h.balance
    refine ⟨↑(kinds.map (Pad.input g.inputs.length)) + taken, ?_, ?_, ?_⟩
    · rw [Multiset.nodup_add]
      refine ⟨Multiset.coe_nodup.2 (hk.map ?_), hn, ?_⟩
      · intro k l hkl
        cases hkl
        rfl
      · rw [Multiset.disjoint_left]
        intro p hp hp'
        obtain ⟨k, _, rfl⟩ := List.mem_map.1 (Multiset.mem_coe.1 hp)
        obtain ⟨j, l, he, hlt⟩ := ht _ hp'
        cases he
        omega
    · intro p hp
      rcases Multiset.mem_add.1 hp with hp | hp
      · obtain ⟨k, _, rfl⟩ := List.mem_map.1 (Multiset.mem_coe.1 hp)
        exact ⟨_, k, rfl, by simp [Graph.addInput]⟩
      · obtain ⟨j, l, rfl, hlt⟩ := ht p hp
        exact ⟨j, l, rfl, by simp [Graph.addInput]; omega⟩
    · rw [reads_addInput, offers_addInput, add_left_comm, hb, add_left_comm]

/-- A graph of which only some outputs are free is wired, and these are kept. -/
theorem wired {kept : List Pad} (h : g.Linear ↑kept) (ho : ∀ p ∈ kept, p.IsOutput) :
    g.Wired (kept.map Pad.label) where
  offered_once := h.offers_nodup.map Pad.label_injective
  read_later := by
    intro before s after hs p hp
    rcases h.read_later before s after hs p hp with ⟨i, k, rfl, hi⟩ | hp
    · refine Or.inl ⟨i, hi, ?_⟩
      cases k
      · exact Or.inl (by simp [Pad.label, StreamKind.letter, String.append_assoc])
      · exact Or.inr (by simp [Pad.label, StreamKind.letter, String.append_assoc])
    · exact Or.inr (List.mem_map_of_mem hp)
  read_once := by
    have hn := (Multiset.nodup_add.1 h.nodup).1
    exact (Multiset.coe_nodup.1 hn).map Pad.label_injective
  kept_offered := by
    intro l hl
    obtain ⟨p, hp, rfl⟩ := List.mem_map.1 hl
    rcases h.mem_known (Or.inr (Multiset.mem_coe.2 hp)) with hr | hp'
    · exact absurd (ho p hp) hr.not_isOutput
    · exact List.mem_map_of_mem hp'
  kept_once := by
    have hn := (Multiset.nodup_add.1 h.nodup).2.1
    exact (Multiset.coe_nodup.1 hn).map Pad.label_injective
  read_or_kept := by
    intro l hl
    obtain ⟨p, hp, rfl⟩ := List.mem_map.1 hl
    rw [List.count_map_of_injective _ _ Pad.label_injective]
    simp only [List.mem_map_of_injective Pad.label_injective]
    obtain ⟨taken, _, ht, hb⟩ := h.balance
    obtain ⟨hr, _, hd⟩ := Multiset.nodup_add.1 h.nodup
    have hpm : p ∈ (g.reads : Multiset Pad) + ↑kept := by
      rw [hb]
      exact Multiset.mem_add.2 (Or.inl (Multiset.mem_coe.2 hp))
    split
    · next hk =>
        rw [List.count_eq_zero]
        intro hread
        exact Multiset.disjoint_left.1 hd (Multiset.mem_coe.2 hread) (Multiset.mem_coe.2 hk)
    · next hk =>
        have hread : p ∈ g.reads := by
          rcases Multiset.mem_add.1 hpm with hm | hm
          · exact Multiset.mem_coe.1 hm
          · exact absurd (Multiset.mem_coe.1 hm) hk
        exact List.count_eq_one_of_mem (Multiset.coe_nodup.1 hr) hread

end Linear
end Graph
end Montage
