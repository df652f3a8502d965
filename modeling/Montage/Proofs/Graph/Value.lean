import Montage.Graph.Filter
import Montage.Proofs.Graph.Linear
import Montage.Proofs.Lists

/-!
# What pads carry

A reading says what a stream of an input is and what a filter makes of the streams that it reads:
how long streams last, or how large their pictures are. It gives every pad of a graph a value.

**Input.** A reading and a graph.

**Algorithm.** The filters are passed once, in the order of the graph.

**Results.**
* `Graph.value_push_of_mem`: the outputs of a new filter have the values that the reading says.
* `Graph.Grows`: what is known about a pad stays known while filters and inputs are added.
-/

namespace Montage

/-- What streams are read as. -/
structure Reading (α τ π : Type) where
  /-- The first stream of a kind in an input. -/
  input : Input → StreamKind → α
  /-- What a filter offers at an output of a kind. -/
  filter : Filter τ π → List α → StreamKind → α

namespace Reading

variable {α τ π : Type}

/-- What a filter with a single input makes of it. -/
def apply (r : Reading α τ π) (filter : Filter τ π) (kind : StreamKind) (a : α) : α :=
  r.filter filter [a] kind

/-- What is known before any filter: the streams of the inputs. -/
def atInputs (r : Reading α τ π) (inputs : List Input) : Pad → Option α
  | .input i kind => inputs[i]?.map fun input => r.input input kind
  | .output _ _ => none

/-- What is known after a filter. -/
def learn (r : Reading α τ π) (known : Pad → Option α) (s : Stage (Filter τ π)) (p : Pad) :
    Option α :=
  if p ∈ s.outputs then
    (s.inputs.mapM known).map fun as => r.filter s.filter as p.kind
  else
    known p

variable {r : Reading α τ π} {known known' : Pad → Option α} {stages : List (Stage (Filter τ π))}

theorem mapM_values {l : List (Pad × α)} (h : ∀ x ∈ l, known x.1 = some x.2) :
    (l.map Prod.fst).mapM known = some (l.map Prod.snd) := by
  rw [mapM_eq_some_iff, List.forall₂_map_left_iff, List.forall₂_map_right_iff, List.forall₂_same]
  exact h

theorem mapM_known_congr {pads : List Pad} (h : ∀ p ∈ pads, known p = known' p) :
    pads.mapM known = pads.mapM known' := by
  induction pads with
  | nil => rfl
  | cons p pads ih =>
      have hp := h p List.mem_cons_self
      have hr := ih fun q hq => h q (List.mem_cons_of_mem _ hq)
      rw [List.mapM_cons, List.mapM_cons, hp, hr]

theorem foldl_learn_of_notMem {p : Pad} (h : p ∉ stages.flatMap Stage.outputs) :
    stages.foldl r.learn known p = known p := by
  induction stages generalizing known with
  | nil => rfl
  | cons s stages ih =>
      simp only [List.flatMap_cons, List.mem_append, not_or] at h
      rw [List.foldl_cons, ih h.2, learn, if_neg h.1]

/-- What is unknown to begin with and not read does not matter. -/
theorem foldl_learn_congr (new : Pad → Prop) (h : ∀ p, ¬ new p → known p = known' p)
    (hs : ∀ p ∈ stages.flatMap Stage.inputs, ¬ new p) {p : Pad} (hp : ¬ new p) :
    stages.foldl r.learn known p = stages.foldl r.learn known' p := by
  induction stages generalizing known known' with
  | nil => exact h p hp
  | cons s stages ih =>
      rw [List.foldl_cons, List.foldl_cons]
      apply ih
      · intro q hq
        have hin : s.inputs.mapM known = s.inputs.mapM known' :=
          mapM_known_congr fun a ha => h a (hs a (by simp [ha]))
        simp only [learn, hin, h q hq]
      · intro q hq
        exact hs q (by simp [hq])

theorem mapM_known_mono (h : ∀ p a, known p = some a → known' p = some a) {pads : List Pad}
    {as : List α} (hm : pads.mapM known = some as) : pads.mapM known' = some as :=
  mapM_eq_some_iff.2 ((mapM_eq_some_iff.1 hm).imp h)

/-- Who knows more to begin with knows more in the end. -/
theorem foldl_learn_mono (h : ∀ p a, known p = some a → known' p = some a) {p : Pad} {a : α}
    (hp : stages.foldl r.learn known p = some a) : stages.foldl r.learn known' p = some a := by
  induction stages generalizing known known' with
  | nil => exact h p a hp
  | cons s stages ih =>
      rw [List.foldl_cons] at hp ⊢
      refine ih (fun q b hq => ?_) hp
      unfold learn at hq ⊢
      split at hq
      · next hmem =>
          obtain ⟨as, has, hb⟩ := Option.map_eq_some_iff.1 hq
          rw [if_pos hmem, mapM_known_mono h has, Option.map_some, hb]
      · next hmem => rw [if_neg hmem, h q b hq]

end Reading

namespace Graph

variable {α τ π : Type} {g : Graph (Filter τ π)} {r : Reading α τ π}

/-- What a reading says about a pad. -/
def value (r : Reading α τ π) (g : Graph (Filter τ π)) : Pad → Option α :=
  g.stages.foldl r.learn (r.atInputs g.inputs)

theorem value_push (inputs : List Pad) (filter : Filter τ π) (kinds : List StreamKind) :
    (g.push inputs filter kinds).2.value r =
      r.learn (g.value r) ⟨inputs, filter, freshPads g.next kinds⟩ := by
  simp [value, push, List.foldl_append]

theorem value_push_of_mem {l : List (Pad × α)} (h : ∀ x ∈ l, g.value r x.1 = some x.2)
    (filter : Filter τ π) {kinds : List StreamKind} {p : Pad} (hp : p ∈ freshPads g.next kinds) :
    (g.push (l.map Prod.fst) filter kinds).2.value r p =
      some (r.filter filter (l.map Prod.snd) p.kind) := by
  rw [value_push, Reading.learn, if_pos hp, Reading.mapM_values h, Option.map_some]

theorem value_push_of_notMem (inputs : List Pad) (filter : Filter τ π) {kinds : List StreamKind}
    {p : Pad} (hp : p ∉ freshPads g.next kinds) :
    (g.push inputs filter kinds).2.value r p = g.value r p := by
  rw [value_push, Reading.learn, if_neg hp]

/-- Only pads of the graph have a value. -/
theorem isRegistered_or_mem_offers {p : Pad} {a : α} (h : g.value r p = some a) :
    g.IsRegistered p ∨ p ∈ g.offers := by
  by_cases hp : p ∈ g.offers
  · exact Or.inr hp
  · left
    rw [value, Reading.foldl_learn_of_notMem hp] at h
    cases p with
    | output k id => simp [Reading.atInputs] at h
    | input i k =>
        obtain ⟨input, hi, _⟩ := Option.map_eq_some_iff.1 h
        exact ⟨i, k, rfl, (List.getElem?_eq_some_iff.1 hi).1⟩

/-- The graph has grown: all filters are still there, and all that was known is still known. -/
structure Grows (r : Reading α τ π) (g g' : Graph (Filter τ π)) : Prop where
  stages : g.stages <+: g'.stages
  value : ∀ p a, g.value r p = some a → g'.value r p = some a

namespace Grows

theorem refl (r : Reading α τ π) (g : Graph (Filter τ π)) : g.Grows r g :=
  ⟨List.prefix_rfl, fun _ _ h => h⟩

theorem trans {g₁ g₂ g₃ : Graph (Filter τ π)} (h₁ : g₁.Grows r g₂) (h₂ : g₂.Grows r g₃) :
    g₁.Grows r g₃ :=
  ⟨h₁.stages.trans h₂.stages, fun p a h => h₂.value p a (h₁.value p a h)⟩

theorem mem_stages {g' : Graph (Filter τ π)} (h : g.Grows r g') {s : Stage (Filter τ π)}
    (hs : s ∈ g.stages) : s ∈ g'.stages :=
  h.stages.subset hs

end Grows

theorem mapM_value_grows {g' : Graph (Filter τ π)} {pads : List Pad} {as : List α}
    (hg : g.Grows r g') (h : pads.mapM (g.value r) = some as) :
    pads.mapM (g'.value r) = some as :=
  Reading.mapM_known_mono hg.value h

namespace Linear

variable {free : Multiset Pad}

theorem grows_push (h : g.Linear free) (inputs : List Pad) (filter : Filter τ π)
    (kinds : List StreamKind) : g.Grows r (g.push inputs filter kinds).2 where
  stages := List.prefix_append _ _
  value := by
    intro p a hp
    rw [value_push_of_notMem, hp]
    intro hf
    rcases isRegistered_or_mem_offers hp with hr | ho
    · obtain ⟨k, id, rfl, _⟩ := freshPads_ge g.next kinds p hf
      exact hr.not_isOutput (Pad.isOutput_output k id)
    · exact h.fresh_notMem hf ho

/-- Only the streams of a new input get a value. -/
theorem value_addInput (h : g.Linear free) (i : Input) {p : Pad}
    (hp : ∀ kind, p ≠ .input g.inputs.length kind) :
    (g.addInput i).2.value r p = g.value r p := by
  apply Reading.foldl_learn_congr fun p => ∃ kind, p = .input g.inputs.length kind
  · intro q hq
    cases q with
    | output k id => rfl
    | input j k =>
        have hj : j ≠ g.inputs.length := by
          rintro rfl
          exact hq ⟨k, rfl⟩
        simp only [Reading.atInputs, Graph.addInput]
        rcases Nat.lt_or_gt_of_ne hj with hlt | hgt
        · rw [List.getElem?_append_left hlt]
        · have hge : (g.inputs ++ [i]).length ≤ j := by
            simp only [List.length_append, List.length_singleton]
            omega
          rw [List.getElem?_eq_none hge, List.getElem?_eq_none (by omega)]
  · rintro q hq ⟨k, rfl⟩
    rcases h.mem_known (Or.inl hq) with ⟨j, l, he, hlt⟩ | ho
    · cases he
      omega
    · obtain ⟨l, id, he, _⟩ := h.offers_lt _ ho
      cases he
  · rintro ⟨k, rfl⟩
    exact hp k rfl

theorem grows_addInput (h : g.Linear free) (i : Input) : g.Grows r (g.addInput i).2 where
  stages := List.prefix_rfl
  value := by
    intro p a hp
    rw [h.value_addInput, hp]
    rintro k rfl
    rcases isRegistered_or_mem_offers hp with ⟨j, l, he, hlt⟩ | ho
    · cases he
      omega
    · obtain ⟨l, id, he, _⟩ := h.offers_lt _ ho
      cases he

/-- The streams of a new input have the values that the reading says. -/
theorem value_addInput_new (h : g.Linear free) (i : Input) (kind : StreamKind) :
    (g.addInput i).2.value r (.input g.inputs.length kind) = some (r.input i kind) := by
  have hn : Pad.input g.inputs.length kind ∉ (g.addInput i).2.offers := by
    intro ho
    obtain ⟨l, id, he, _⟩ := h.offers_lt _ ho
    cases he
  rw [value, Reading.foldl_learn_of_notMem hn]
  simp [Reading.atInputs, Graph.addInput]

end Linear

section

variable {φ : Type}

/-- A graph with filters and inputs added to another. If every filter of that one offers something,
every filter does. -/
structure Extends (g g' : Graph φ) : Prop where
  stages : g.stages <+: g'.stages
  inputs : g.inputs <+: g'.inputs
  offers : (∀ s ∈ g.stages, s.outputs ≠ []) → ∀ s ∈ g'.stages, s.outputs ≠ []

theorem Extends.refl (g : Graph φ) : g.Extends g :=
  ⟨List.prefix_rfl, List.prefix_rfl, id⟩

theorem Extends.trans {g g' g'' : Graph φ} (h : g.Extends g') (h' : g'.Extends g'') :
    g.Extends g'' :=
  ⟨h.stages.trans h'.stages, h.inputs.trans h'.inputs, h'.offers ∘ h.offers⟩

theorem extends_push (g : Graph φ) (inputs : List Pad) (filter : φ) {kinds : List StreamKind}
    (hk : kinds ≠ []) : g.Extends (g.push inputs filter kinds).2 where
  stages := List.prefix_append _ _
  inputs := List.prefix_rfl
  offers := by
    intro h s hs
    rcases List.mem_append.1 hs with hs | hs
    · exact h s hs
    · rw [List.mem_singleton.1 hs]
      cases kinds with
      | nil => exact absurd rfl hk
      | cons kind kinds => simp [freshPads]

theorem extends_addInput (g : Graph φ) (i : Input) : g.Extends (g.addInput i).2 :=
  ⟨List.prefix_rfl, List.prefix_append _ _, id⟩

end

/-- What is known of a pad stays known in a graph with more filters and inputs. -/
theorem Extends.grows {g' : Graph (Filter τ π)} {free : Multiset Pad} (h : g.Extends g')
    (hl : g'.Linear free) : g.Grows r g' where
  stages := h.stages
  value := by
    intro p a hp
    obtain ⟨more, hmore⟩ := h.stages
    have hmid : g.stages.foldl r.learn (r.atInputs g'.inputs) p = some a := by
      refine Reading.foldl_learn_mono (fun q b hq => ?_) hp
      cases q with
      | output kind id => exact hq
      | input i kind =>
          obtain ⟨input, hi, hb⟩ := Option.map_eq_some_iff.1 hq
          obtain ⟨more', hmore'⟩ := h.inputs
          have hlt : i < g.inputs.length := (List.getElem?_eq_some_iff.1 hi).1
          rw [Reading.atInputs, ← hmore', List.getElem?_append_left hlt, hi, Option.map_some, hb]
    have hnot : p ∉ more.flatMap Stage.outputs := by
      intro hm
      have hoffers : g'.offers = g.offers ++ more.flatMap Stage.outputs := by
        rw [Graph.offers, ← hmore, List.flatMap_append, Graph.offers]
      obtain ⟨k, id, rfl, _⟩ := hl.offers_lt p (by rw [hoffers]; exact List.mem_append_right _ hm)
      rcases isRegistered_or_mem_offers hp with hr | ho
      · exact hr.not_isOutput (Pad.isOutput_output k id)
      · have hnodup := hl.offers_nodup
        rw [hoffers, List.nodup_append'] at hnodup
        exact hnodup.2.2 ho hm
    rw [value, ← hmore, List.foldl_append, Reading.foldl_learn_of_notMem hnot, hmid]

end Graph
end Montage
