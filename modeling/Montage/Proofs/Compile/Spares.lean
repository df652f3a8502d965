import Montage.Measure.Word
import Montage.Proofs.Compile.Origin
import Montage.Proofs.Compile.Steps
import Montage.Proofs.Compile.Whole

/-!
# Spares

The order in which a workshop keeps its spares does not matter.

**Input.** A history of requests, filters and inputs, from the first on. Before each of its operations,
and at its end, the canvases and the files that are kept may come in any order.

**Algorithm.** Requests find what they ask for by its key, and every key is kept once; so two runs of a
history that differ in the order of what is kept go on to do so, and answer the same. At the end the
spares are drained in the order of their labels, and no two pads have one label.

**Results.**
* `sortByLabel_congr`: pads are sorted to one list, in whatever order they come.
* `Workshop.steady_perform`: one operation in two workshops that differ in order only.
* `Workshop.finish_unordered`: the finished graph of a history, and that of a film.
-/

namespace Montage

/-! ### Pads in the order of their labels -/

theorem pairwise_insertByLabel {p : Pad} {pads : List Pad}
    (h : pads.Pairwise fun a b => a.label ≤ b.label) :
    (insertByLabel p pads).Pairwise fun a b => a.label ≤ b.label := by
  induction pads with
  | nil => exact List.pairwise_singleton _ p
  | cons q pads ih =>
      obtain ⟨hq, hpads⟩ := List.pairwise_cons.1 h
      rw [insertByLabel]
      split
      · next hlt =>
          have hle : p.label ≤ q.label := String.not_lt.1 (String.lt_asymm hlt)
          have hrest : ∀ r ∈ pads, p.label ≤ r.label := fun r hr => String.le_trans hle (hq r hr)
          exact List.pairwise_cons.2 ⟨List.forall_mem_cons.2 ⟨hle, hrest⟩, h⟩
      · next hle =>
          refine List.pairwise_cons.2 ⟨fun r hr => ?_, ih hpads⟩
          rcases List.mem_cons.1 ((insertByLabel_perm p pads).mem_iff.1 hr) with rfl | hr
          · exact String.not_lt.1 hle
          · exact hq r hr

theorem pairwise_sortByLabel (pads : List Pad) :
    (sortByLabel pads).Pairwise fun a b => a.label ≤ b.label := by
  induction pads with
  | nil => exact List.Pairwise.nil
  | cons p pads ih => exact pairwise_insertByLabel ih

/-- Pads are sorted to one list, in whatever order they come. -/
theorem sortByLabel_congr {pads pads' : List Pad} (h : pads.Perm pads') :
    sortByLabel pads = sortByLabel pads' := by
  refine List.Perm.eq_of_pairwise ?_ (pairwise_sortByLabel pads) (pairwise_sortByLabel pads') ?_
  · exact fun a b _ _ hab hba => Pad.label_injective (String.le_antisymm hab hba)
  · exact ((sortByLabel_perm pads).trans h).trans (sortByLabel_perm pads').symm

variable {τ π β γ : Type}

namespace Workshop

/-- Two workshops differ in the order of what they keep, if at all. -/
structure Reorders (w v : Workshop τ π) : Prop where
  frame : w.frame = v.frame
  sampleRate : w.sampleRate = v.sampleRate
  graph : w.graph = v.graph
  canvases : w.canvases.Perm v.canvases
  sources : w.sources.Perm v.sources

namespace Reorders

variable {u w v : Workshop τ π}

theorem refl (w : Workshop τ π) : w.Reorders w :=
  ⟨rfl, rfl, rfl, .refl _, .refl _⟩

theorem symm (h : w.Reorders v) : v.Reorders w :=
  ⟨h.frame.symm, h.sampleRate.symm, h.graph.symm, h.canvases.symm, h.sources.symm⟩

theorem trans (h : u.Reorders w) (h' : w.Reorders v) : u.Reorders v :=
  ⟨h.frame.trans h'.frame, h.sampleRate.trans h'.sampleRate, h.graph.trans h'.graph,
    h.canvases.trans h'.canvases, h.sources.trans h'.sources⟩

theorem sparePads (h : w.Reorders v) : w.sparePads = v.sparePads := by
  rw [Workshop.sparePads, Workshop.sparePads, Multiset.coe_eq_coe.2 (h.canvases.map Prod.snd),
    Multiset.coe_eq_coe.2 (h.sources.flatMap_right fun e => e.2.pads)]

/-- Spares are drained in the same order, in whatever order they were kept. -/
theorem finish (h : w.Reorders v) : w.finish = v.finish := by
  have hvideos : w.spareVideos.Perm v.spareVideos :=
    (h.canvases.map Prod.snd).append (h.sources.filterMap fun e => e.2.video)
  have haudios : w.spareAudios.Perm v.spareAudios :=
    h.sources.filterMap _
  rw [Workshop.finish, Workshop.finish, h.graph, sortByLabel_congr hvideos,
    sortByLabel_congr haudios]

end Reorders
end Workshop

/-! ### Pads and keys -/

namespace Graph

variable {φ : Type}

/-- A pad of an input that there is, or with a number that was given out. -/
def Knows (g : Graph φ) : Pad → Prop
  | .input index _ => index < g.inputs.length
  | .output _ id => id < g.next

theorem Knows.mono {g g' : Graph φ} {p : Pad} (h : g.Knows p)
    (hi : g.inputs.length ≤ g'.inputs.length) (hn : g.next ≤ g'.next) : g'.Knows p := by
  cases p with
  | input index kind => exact Nat.lt_of_lt_of_le h hi
  | output kind id => exact Nat.lt_of_lt_of_le h hn

end Graph

namespace Workshop

/-- Every key is kept once, and the pads that are kept or at hand are known and are all different. -/
structure Orderly (w : Workshop τ π) (held : Multiset Pad) : Prop where
  canvas_keys : (w.canvases.map Prod.fst).Nodup
  source_keys : (w.sources.map fun e => e.1.identity).Nodup
  nodup : (held + w.sparePads).Nodup
  known : ∀ p ∈ held + w.sparePads, w.graph.Knows p

theorem orderly_start (frame : Frame τ) (sampleRate : Nat) :
    (start frame sampleRate : Workshop τ π).Orderly 0 where
  canvas_keys := List.nodup_nil
  source_keys := List.nodup_nil
  nodup := by simp [start, sparePads]
  known := by simp [start, sparePads]

namespace Orderly

variable {w v : Workshop τ π} {held held' : Multiset Pad}

theorem reorders (h : w.Orderly held) (hr : w.Reorders v) : v.Orderly held where
  canvas_keys := (hr.canvases.map Prod.fst).nodup_iff.1 h.canvas_keys
  source_keys := (hr.sources.map fun e => e.1.identity).nodup_iff.1 h.source_keys
  nodup := hr.sparePads ▸ h.nodup
  known := hr.sparePads ▸ hr.graph ▸ h.known

/-- What is at hand may be used up. -/
theorem drop (h : w.Orderly held) (hl : held' ≤ held) : w.Orderly held' where
  canvas_keys := h.canvas_keys
  source_keys := h.source_keys
  nodup := Multiset.nodup_of_le (Multiset.add_le_add_right hl) h.nodup
  known p hp := h.known p (Multiset.mem_of_le (Multiset.add_le_add_right hl) hp)

/-- Pads are moved between the hands and what is kept. -/
theorem restock {canvases : List (CanvasKey π × Pad)} {sources : List (SourceKey × Spares)}
    (h : w.Orderly held) (hc : (canvases.map Prod.fst).Nodup)
    (hs : (sources.map fun e => e.1.identity).Nodup)
    (hb : held' + ({ w with canvases := canvases, sources := sources } : Workshop τ π).sparePads =
      held + w.sparePads) :
    ({ w with canvases := canvases, sources := sources } : Workshop τ π).Orderly held' where
  canvas_keys := hc
  source_keys := hs
  nodup := hb ▸ h.nodup
  known p hp := h.known p (hb ▸ hp)

/-- The graph grows, and gives pads that it did not know. -/
theorem grow {g : Graph (Filter τ π)} {fresh : List Pad} (h : w.Orderly held)
    (hi : w.graph.inputs.length ≤ g.inputs.length) (hn : w.graph.next ≤ g.next)
    (hd : fresh.Nodup) (hf : ∀ p ∈ fresh, g.Knows p ∧ ¬w.graph.Knows p) :
    ({ w with graph := g } : Workshop τ π).Orderly (↑fresh + held) where
  canvas_keys := h.canvas_keys
  source_keys := h.source_keys
  nodup := by
    rw [add_assoc]
    refine Multiset.nodup_add.2 ⟨Multiset.coe_nodup.2 hd, h.nodup, ?_⟩
    exact Multiset.disjoint_left.2 fun {p} hp hp' => (hf p hp).2 (h.known p hp')
  known p hp := by
    rw [add_assoc, Multiset.mem_add] at hp
    rcases hp with hp | hp
    · exact (hf p hp).1
    · exact (h.known p hp).mono hi hn

theorem push (h : w.Orderly held) (inputs : List Pad) (filter : Filter τ π)
    (kinds : List StreamKind) :
    ({ w with graph := (w.graph.push inputs filter kinds).2 } : Workshop τ π).Orderly
      (↑(Graph.freshPads w.graph.next kinds) + held) := by
  refine h.grow (Nat.le_refl _) (Nat.le_add_right _ _) (Graph.freshPads_nodup _ _) fun p hp => ?_
  obtain ⟨kind, id, rfl, hge⟩ := Graph.freshPads_ge _ _ p hp
  obtain ⟨_, _, ⟨⟩, hlt⟩ := Graph.freshPads_lt _ _ _ hp
  exact ⟨hlt, Nat.not_lt_of_le hge⟩

theorem addInput (h : w.Orderly held) (i : Input) {kinds : List StreamKind} (hk : kinds.Nodup) :
    ({ w with graph := (w.graph.addInput i).2 } : Workshop τ π).Orderly
      (↑(kinds.map (Pad.input w.graph.inputs.length)) + held) := by
  refine h.grow ?_ (Nat.le_refl _) ?_ fun p hp => ?_
  · simp [Graph.addInput]
  · exact hk.map fun _ _ he => (Pad.input.inj he).2
  · obtain ⟨kind, -, rfl⟩ := List.mem_map.1 hp
    exact ⟨by simp [Graph.Knows, Graph.addInput], Nat.lt_irrefl _⟩

end Orderly

/-- A canvas is taken out of what is kept. -/
structure LacksCanvas (w : Workshop τ π) (key : CanvasKey π) (held : Multiset Pad) : Prop where
  orderly : w.Orderly held
  new : key ∉ w.canvases.map Prod.fst

/-- A file is taken out of what is kept. -/
structure LacksFile (w : Workshop τ π) (key : SourceKey) (held : Multiset Pad) : Prop where
  orderly : w.Orderly held
  new : key.identity ∉ w.sources.map fun e => e.1.identity

end Workshop

/-- What is looked up by its key is found in whatever order entries come, and the others differ in
their order only. -/
theorem takeEntry_reorder {κ ι α : Type} {name : κ → ι} {fits : κ → Bool} {key : κ}
    (hfits : ∀ k, fits k = true ↔ name key = name k) {l l' : List (κ × α)} (hp : l.Perm l')
    (hn : (l.map fun e => name e.1).Nodup) :
    (takeEntry fits l = none ∧ takeEntry fits l' = none ∧ name key ∉ l.map fun e => name e.1) ∨
      ∃ b others others' k, takeEntry fits l = some (b, others) ∧
        takeEntry fits l' = some (b, others') ∧ others.Perm others' ∧
        l.Perm ((k, b) :: others) ∧ (name key :: others.map fun e => name e.1).Nodup := by
  cases hl : takeEntry fits l with
  | none =>
      have hnone := takeEntry_eq_none hl
      cases hl' : takeEntry fits l' with
      | none =>
          refine Or.inl ⟨rfl, rfl, fun hmem => ?_⟩
          obtain ⟨e, he, heq⟩ := List.mem_map.1 hmem
          exact Bool.eq_false_iff.1 (hnone e he) ((hfits e.1).2 heq.symm)
      | some found =>
          obtain ⟨k, hk, hperm⟩ := takeEntry_eq_some hl'
          have hmem : (k, found.1) ∈ l := hp.mem_iff.2 (hperm.mem_iff.2 List.mem_cons_self)
          exact absurd hk (Bool.eq_false_iff.1 (hnone _ hmem))
  | some found =>
      obtain ⟨b, others⟩ := found
      obtain ⟨k, hk, hperm⟩ := takeEntry_eq_some hl
      have hnames : (name key :: others.map fun e => name e.1).Nodup := by
        rw [(hfits k).1 hk]
        exact (hperm.map fun e => name e.1).nodup_iff.1 hn
      cases hl' : takeEntry fits l' with
      | none =>
          have hmem : (k, b) ∈ l' := hp.mem_iff.1 (hperm.mem_iff.2 List.mem_cons_self)
          exact absurd hk (Bool.eq_false_iff.1 (takeEntry_eq_none hl' _ hmem))
      | some found' =>
          obtain ⟨b', others'⟩ := found'
          obtain ⟨k', hk', hperm'⟩ := takeEntry_eq_some hl'
          have hsame : ((k, b) :: others).Perm ((k', b') :: others') :=
            (hperm.symm.trans hp).trans hperm'
          -- The key stands on no other entry, so both runs find the same one.
          have hfound : (k', b') = (k, b) := by
            rcases List.mem_cons.1 (hsame.mem_iff.2 List.mem_cons_self) with he | he
            · exact he
            · refine absurd ?_ (List.nodup_cons.1 hnames).1
              exact List.mem_map.2 ⟨_, he, ((hfits k').1 hk').symm⟩
          cases hfound
          exact Or.inr ⟨b, others, others', k, rfl, rfl, hsame.cons_inv, hperm, hnames⟩

namespace Compile

/-- Two outcomes fail alike, or they answer the same and differ in the order of what is kept. -/
inductive Alike (post : β → Workshop τ π → Prop) :
    Except Failure (β × Workshop τ π) → Except Failure (β × Workshop τ π) → Prop
  | ok {b : β} {w v : Workshop τ π} (hr : w.Reorders v) (hp : post b w) :
      Alike post (.ok (b, w)) (.ok (b, v))
  | error (f : Failure) : Alike post (.error f) (.error f)

/-- A step makes no difference between orders, in workshops of which something holds. -/
def Steady (pre : Workshop τ π → Prop) (c : Compile τ π β) (post : β → Workshop τ π → Prop) : Prop :=
  ∀ w v, pre w → w.Reorders v → Alike post (c w) (c v)

namespace Steady

variable {pre : Workshop τ π → Prop} {mid : β → Workshop τ π → Prop}
  {post : γ → Workshop τ π → Prop}

theorem pure {b : β} (h : ∀ w, pre w → mid b w) : Steady pre (Pure.pure b) mid :=
  fun w _ hw hr => .ok hr (h w hw)

theorem throw (f : Failure) : Steady pre (MonadExcept.throw f) mid :=
  fun _ _ _ _ => .error f

theorem bind {c : Compile τ π β} {f : β → Compile τ π γ} (mid : β → Workshop τ π → Prop)
    (h : Steady pre c mid) (hf : ∀ b, Steady (mid b) (f b) post) : Steady pre (c >>= f) post := by
  intro w v hw hr
  have hfirst := h w v hw hr
  change Alike post ((c w).bind fun x => f x.1 x.2) ((c v).bind fun x => f x.1 x.2)
  generalize c w = first at hfirst ⊢
  generalize c v = first' at hfirst ⊢
  cases hfirst with
  | ok hr' hp => exact hf _ _ _ hp hr'
  | error f => exact .error f

end Steady

variable {held : Multiset Pad}

/-- A step on the graph alone. -/
theorem steady_onGraph {f : Graph (Filter τ π) → β × Graph (Filter τ π)} {pre : Workshop τ π → Prop}
    {post : β → Workshop τ π → Prop}
    (h : ∀ w, pre w → post (f w.graph).1 { w with graph := (f w.graph).2 }) :
    Steady pre (onGraph f) post := by
  intro w v hw hr
  obtain ⟨frame, rate, graph, canvases, sources⟩ := w
  obtain ⟨_, _, _, canvases', sources'⟩ := v
  obtain ⟨rfl, rfl, rfl, hc, hs⟩ := hr
  exact .ok ⟨rfl, rfl, rfl, hc, hs⟩ (h _ hw)

variable [PixelCount π]

/-- A canvas that is kept is found in any order; one that is not is made. -/
theorem steady_canvasStream (key : CanvasKey π) :
    Steady (fun w => w.Orderly 0) (canvasStream key : Compile τ π Pad) fun p w =>
      w.LacksCanvas key {p} := by
  intro w v hw hr
  rw [canvasStream, get_bind, get_bind]
  have hfits : ∀ k, (k == key) = true ↔ id key = id k := fun k =>
    beq_iff_eq.trans eq_comm
  rcases takeEntry_reorder hfits hr.canvases hw.canvas_keys with
    ⟨ht, ht', hnew⟩ | ⟨p, others, others', k, ht, ht', hp, hperm, hnodup⟩
  · simp only [ht, ht', ← hr.frame]
    have hmade : Steady (fun w => w.LacksCanvas key 0)
        (join .video [] (.color key.width key.height key.color w.frame.fps) >>=
          apply .video .rgba : Compile τ π Pad) fun p w => w.LacksCanvas key {p} := by
      refine .bind (fun p w => w.LacksCanvas key {p}) (steady_onGraph fun w hw => ?_) fun p => ?_
      · exact ⟨hw.orderly.push [] _ [.video], hw.new⟩
      · rw [apply, join]
        refine steady_onGraph fun w hw => ⟨?_, hw.new⟩
        exact (hw.orderly.push [p] .rgba [.video]).drop (Multiset.le_add_right _ _)
    exact hmade w v ⟨hw, hnew⟩ hr
  · simp only [ht, ht']
    obtain ⟨hmem, hothers⟩ := List.nodup_cons.1 hnodup
    refine .ok ⟨hr.frame, hr.sampleRate, hr.graph, hp, hr.sources⟩ ⟨?_, hmem⟩
    refine hw.restock hothers hw.source_keys ?_
    have hspare : (↑(w.canvases.map Prod.snd) : Multiset Pad) = {p} + ↑(others.map Prod.snd) :=
      Multiset.coe_eq_coe.2 (hperm.map Prod.snd)
    rw [Workshop.sparePads, Workshop.sparePads, hspare, zero_add, add_assoc]

theorem steady_canvas (tag : Tag) (width height : Length π) (color : Option Color) :
    Steady (fun w => w.Orderly 0) (canvas tag width height color : Compile τ π Pad)
      fun _ w => w.Orderly 0 := by
  have hconcrete : ∀ property (l : Length π), Steady (fun w => w.Orderly 0)
      (concrete tag property l : Compile τ π π) fun _ w => w.Orderly 0 := by
    intro property l
    unfold concrete
    split
    · exact .pure fun _ h => h
    · exact .throw _
  have hcounted : ∀ ns : List π, Steady (fun w => w.Orderly 0)
      (counted ns : Compile τ π Unit) fun _ w => w.Orderly 0 := by
    intro ns
    unfold counted
    split
    · exact .throw _
    · exact .pure fun _ h => h
  refine .bind _ (hcounted _) fun _ => ?_
  refine .bind _ (hconcrete _ width) fun w => .bind _ (hconcrete _ height) fun h => ?_
  split
  · exact .throw _
  refine .bind _ (steady_canvasStream _) fun stream => ?_
  refine .bind (fun halves w => w.LacksCanvas _ {halves.2})
    (steady_onGraph fun w hw => ⟨?_, hw.new⟩) fun halves => ?_
  · refine (hw.orderly.push [stream] (.split .video) [.video, .video]).drop ?_
    refine (Multiset.singleton_le.2 ?_).trans (Multiset.le_add_right _ _)
    simp [Graph.freshPads, Graph.fork]
  · intro w v hw hr
    refine .ok ⟨hr.frame, hr.sampleRate, hr.graph, hr.canvases.cons _, hr.sources⟩ ?_
    refine hw.orderly.restock (List.nodup_cons.2 ⟨hw.new, hw.orderly.canvas_keys⟩)
      hw.orderly.source_keys ?_
    rw [Workshop.sparePads, Workshop.sparePads, List.map_cons, ← Multiset.cons_coe,
      ← Multiset.singleton_add]
    ac_rfl

omit [PixelCount π] in
/-- The spares of a file are found in any order; a file that is new becomes an input. -/
theorem steady_spares [Timescale τ] (key : SourceKey) (wantAudio : Bool) :
    Steady (fun w => w.Orderly 0) (spares key wantAudio : Compile τ π Spares) fun sp w =>
      w.LacksFile key ↑sp.pads := by
  intro w v hw hr
  rw [spares, get_bind, get_bind]
  have hfits : ∀ k, key.same k = true ↔ key.identity = k.identity := fun k =>
    SourceKey.same_iff
  rcases takeEntry_reorder hfits hr.sources hw.source_keys with
    ⟨ht, ht', hnew⟩ | ⟨sp, others, others', k, ht, ht', hp, hperm, hnodup⟩
  · simp only [ht, ht', ← hr.frame]
    let kinds : List StreamKind :=
      (if key.kind.hasVideo then [.video] else []) ++ (if wantAudio then [.audio] else [])
    have hkinds : kinds.Nodup := by
      simp only [kinds]
      split <;> split <;> decide
    have hpads : ∀ index, kinds.map (Pad.input index) = Spares.pads
        ⟨if key.kind.hasVideo then some (.input index .video) else none,
          if wantAudio then some (.input index .audio) else none⟩ := by
      intro index
      simp only [kinds, Spares.pads]
      split <;> split <;> rfl
    have hadded : Steady (fun w => w.LacksFile key 0)
        (onGraph fun g => g.addInput ⟨inputOptions w.frame.fps key.kind, key.path⟩ :
          Compile τ π Nat) fun index w => w.LacksFile key ↑(kinds.map (Pad.input index)) := by
      refine steady_onGraph fun w hw => ⟨?_, hw.new⟩
      rw [← add_zero (Multiset.ofList _)]
      exact hw.orderly.addInput _ hkinds
    refine Steady.bind _ hadded (fun index => ?_) w v ⟨hw, hnew⟩ hr
    rw [hpads]
    exact .pure fun w hw => hw
  · simp only [ht, ht']
    obtain ⟨hmem, hothers⟩ := List.nodup_cons.1 hnodup
    refine .ok ⟨hr.frame, hr.sampleRate, hr.graph, hr.canvases, hp⟩ ⟨?_, hmem⟩
    refine hw.restock hw.canvas_keys hothers ?_
    have hspare : (↑(w.sources.flatMap fun e => e.2.pads) : Multiset Pad) =
        ↑sp.pads + ↑(others.flatMap fun e => e.2.pads) :=
      Multiset.coe_eq_coe.2 (hperm.flatMap_right _)
    rw [Workshop.sparePads, Workshop.sparePads, hspare]
    ac_rfl

omit [PixelCount π] in
/-- Of a stream that is handed out, a half is left. -/
theorem steady_handOut (key : SourceKey) (kind : StreamKind) (wanted : Bool) (spare : Option Pad) :
    Steady (fun w => w.LacksFile key (↑spare.toList + held))
      (handOut kind wanted spare : Compile τ π (Option Pad × Option Pad)) fun halves w =>
        w.LacksFile key (↑halves.2.toList + held) := by
  unfold handOut
  split
  · next stream =>
      refine .bind (fun halves w => w.LacksFile key (↑[halves.2] + held))
        (steady_onGraph fun w hw => ⟨?_, hw.new⟩) fun halves => .pure fun w hw => hw
      have hrest := hw.orderly.drop (Multiset.le_add_left held _)
      refine (hrest.push [stream] (.split kind) [kind, kind]).drop ?_
      refine Multiset.add_le_add_right (Multiset.singleton_le.2 ?_)
      simp [Graph.freshPads, Graph.fork]
  · exact .pure fun w hw => hw

omit [PixelCount π] in
theorem steady_source [Timescale τ] (path : Path) (kind : MediaKind) (wantVideo wantAudio : Bool) :
    Steady (fun w => w.Orderly 0)
      (source path kind wantVideo wantAudio : Compile τ π (Option Pad × Option Pad))
      fun _ w => w.Orderly 0 := by
  let key : SourceKey := ⟨path, kind⟩
  refine .bind _ (steady_spares key wantAudio) fun sp => ?_
  rw [Spares.pads, ← Multiset.coe_add]
  refine .bind (fun halves w => w.LacksFile key (↑halves.2.toList + ↑sp.audio.toList))
    (steady_handOut key .video wantVideo sp.video) fun video => ?_
  refine .bind (fun halves w => w.LacksFile key (↑halves.2.toList + ↑video.2.toList)) ?_
    fun audio => ?_
  · rw [add_comm]
    exact steady_handOut key .audio wantAudio sp.audio
  intro w v hw hr
  refine .ok ⟨hr.frame, hr.sampleRate, hr.graph, hr.canvases, hr.sources.cons _⟩ ?_
  refine hw.orderly.restock hw.orderly.canvas_keys
    (List.nodup_cons.2 ⟨hw.new, hw.orderly.source_keys⟩) ?_
  simp only [Workshop.sparePads, List.flatMap_cons, ← Multiset.coe_add, Spares.pads]
  ac_rfl

end Compile

theorem Request.steady_serve [Timescale τ] [PixelCount π] (r : Request π) :
    Compile.Steady (fun w => w.Orderly 0) (r.serve : Compile τ π Streams) fun _ w => w.Orderly 0 := by
  cases r with
  | canvas tag width height color =>
      exact .bind _ (Compile.steady_canvas tag width height color) fun _ => .pure fun _ h => h
  | source path kind wantVideo wantAudio =>
      exact .bind _ (Compile.steady_source path kind wantVideo wantAudio) fun _ => .pure fun _ h => h

/-! ### Histories -/

/-- What a workshop is asked to do: to serve a request, to add a filter, or to add an input. -/
inductive Operation (τ π : Type) where
  | request (r : Request π)
  | push (inputs : List Pad) (filter : Filter τ π) (kinds : List StreamKind)
  | addInput (i : Input)

/-- What a workshop answers. -/
inductive Answer where
  | streams (st : Streams)
  | refused (f : Failure)
  | pads (ps : List Pad)
  | index (n : Nat)

namespace Operation

variable [Timescale τ] [PixelCount π]

/-- The answer to an operation, and the workshop after it. A request that is refused changes nothing. -/
def perform (w : Workshop τ π) : Operation τ π → Answer × Workshop τ π
  | request r =>
      match r.serve w with
      | .ok (st, w') => (.streams st, w')
      | .error f => (.refused f, w)
  | push inputs filter kinds =>
      let (ps, g) := w.graph.push inputs filter kinds
      (.pads ps, { w with graph := g })
  | addInput i =>
      let (n, g) := w.graph.addInput i
      (.index n, { w with graph := g })

end Operation

namespace Workshop

variable [Timescale τ] [PixelCount π]

/-- A workshop comes to another one by operations, with the answers to them. Before each operation and
after the last one, what is kept may be put in another order. -/
inductive Leads : Workshop τ π → List (Operation τ π) → List Answer → Workshop τ π → Prop
  | done {w v : Workshop τ π} (h : w.Reorders v) : Leads w [] [] v
  | perform {w v u : Workshop τ π} {op : Operation τ π} {ops : List (Operation τ π)}
      {answers : List Answer} (h : w.Reorders v) (hrest : Leads (op.perform v).2 ops answers u) :
      Leads w (op :: ops) ((op.perform v).1 :: answers) u

/-- One operation, in two workshops that differ in order only: they answer the same. -/
theorem steady_perform {w v : Workshop τ π} (h : w.Orderly 0) (hr : w.Reorders v)
    (op : Operation τ π) :
    (op.perform w).1 = (op.perform v).1 ∧ (op.perform w).2.Orderly 0 ∧
      (op.perform w).2.Reorders (op.perform v).2 := by
  cases op with
  | request r =>
      have hserve := r.steady_serve w v h hr
      simp only [Operation.perform]
      generalize r.serve w = outcome at hserve ⊢
      generalize r.serve v = outcome' at hserve ⊢
      cases hserve with
      | ok hr' hp => exact ⟨rfl, hp, hr'⟩
      | error f => exact ⟨rfl, h, hr⟩
  | push inputs filter kinds =>
      simp only [Operation.perform, ← hr.graph]
      exact ⟨trivial, (h.push inputs filter kinds).drop (Multiset.zero_le _),
        ⟨hr.frame, hr.sampleRate, rfl, hr.canvases, hr.sources⟩⟩
  | addInput i =>
      simp only [Operation.perform, ← hr.graph]
      exact ⟨trivial, (h.addInput i List.nodup_nil).drop (Multiset.zero_le _),
        ⟨hr.frame, hr.sampleRate, rfl, hr.canvases, hr.sources⟩⟩

namespace Leads

variable {u v w : Workshop τ π} {ops : List (Operation τ π)} {answers : List Answer}

theorem reorders (h : Leads w ops answers u) (hr : v.Reorders w) : Leads v ops answers u := by
  cases h with
  | done h => exact .done (hr.trans h)
  | perform h hrest => exact .perform (hr.trans h) hrest

theorem trans {t : Workshop τ π} {ops' : List (Operation τ π)} {answers' : List Answer}
    (h : Leads w ops answers v) (h' : Leads v ops' answers' t) :
    Leads w (ops ++ ops') (answers ++ answers') t := by
  induction h with
  | done h => exact h'.reorders h
  | perform h _ ih => exact .perform h (ih h')

/-- Two runs of a history answer the same, and end with workshops that differ in order only. -/
theorem steady {w' u' : Workshop τ π} {answers' : List Answer} (hw : w.Orderly 0)
    (hr : w.Reorders w') (h : Leads w ops answers u) (h' : Leads w' ops answers' u') :
    answers = answers' ∧ u.Orderly 0 ∧ u.Reorders u' := by
  induction h generalizing w' answers' with
  | done h =>
      cases h' with
      | done h' => exact ⟨rfl, hw.reorders h, (h.symm.trans hr).trans h'⟩
  | @perform w v u op ops answers h _ ih =>
      cases h' with
      | @perform _ v' _ _ _ answers' h' hrest' =>
          obtain ⟨hanswer, horderly, hnext⟩ :=
            steady_perform (hw.reorders h) ((h.symm.trans hr).trans h') op
          obtain ⟨hanswers, hend⟩ := ih horderly hnext hrest'
          exact ⟨by rw [hanswer, hanswers], hend⟩

end Leads
end Workshop

namespace Compile

variable [Timescale τ] [PixelCount π]

/-- What is put together from single steps is a history. -/
theorem Composed.leads {c : Compile τ π β} (h : Composed c) {w w' : Workshop τ π} {b : β}
    (hc : c w = .ok (b, w')) : ∃ ops answers, w.Leads ops answers w' := by
  induction h generalizing w w' with
  | pure b =>
      obtain ⟨-, rfl⟩ := pure_eq_ok.1 hc
      exact ⟨[], [], .done (.refl _)⟩
  | throw f => cases hc
  | bind _ _ ihc ihf =>
      obtain ⟨a, v, ha, hb⟩ := bind_eq_ok.1 hc
      obtain ⟨ops, answers, hfirst⟩ := ihc ha
      obtain ⟨ops', answers', hsecond⟩ := ihf a hb
      exact ⟨_, _, hfirst.trans hsecond⟩
  | get_bind _ ihf => exact ihf w hc
  | join kind inputs filter =>
      cases hc
      exact ⟨[.push inputs filter [kind]], _, .perform (.refl _) (.done (.refl _))⟩
  | fork first second inputs filter =>
      cases hc
      exact ⟨[.push inputs filter [first, second]], _, .perform (.refl _) (.done (.refl _))⟩
  | canvas tag width height color =>
      have hserve : (Request.canvas tag width height color).serve w = .ok (⟨some b, none⟩, w') :=
        bind_eq_ok.2 ⟨b, w', hc, rfl⟩
      refine ⟨[.request (.canvas tag width height color)], _, .perform (.refl _) (.done ?_)⟩
      simp only [Operation.perform, hserve]
      exact .refl _
  | source path kind wantVideo wantAudio =>
      have hserve : (Request.source path kind wantVideo wantAudio).serve w =
          .ok (⟨b.1, b.2⟩, w') :=
        bind_eq_ok.2 ⟨b, w', hc, rfl⟩
      refine ⟨[.request (.source path kind wantVideo wantAudio)], _,
        .perform (.refl _) (.done ?_)⟩
      simp only [Operation.perform, hserve]
      exact .refl _

end Compile

namespace Workshop

variable [Timescale τ] [PixelCount π]

/-- The order in which a workshop keeps its spares does not matter. However what is kept is ordered in
two runs of a history, they answer the same, no two spares that are left have one label, and the
finished graph is the same. Every film is finished from such a history, so its text is determined by
its scene, its frame and its sample rate. -/
theorem finish_unordered (frame : Frame τ) (sampleRate : Nat) :
    (∀ (ops : List (Operation τ π)) (answers answers' : List Answer) (w w' : Workshop τ π),
      Leads (start frame sampleRate) ops answers w →
      Leads (start frame sampleRate) ops answers' w' →
        answers = answers' ∧ ((w.spareVideos ++ w.spareAudios).map Pad.label).Nodup ∧
          w.finish = w'.finish) ∧
    ∀ (root : Scene τ π) (film : Film τ π), Film.ofScene root frame sampleRate = .ok film →
      ∃ ops answers, (∃ w, Leads (start frame sampleRate) ops answers w) ∧
        ∀ answers' w', Leads (start frame sampleRate) ops answers' w' → w'.finish = film.graph := by
  have hstart : (start frame sampleRate : Workshop τ π).Orderly 0 := orderly_start frame sampleRate
  refine ⟨fun ops answers answers' w w' h h' => ?_, fun root film hfilm => ?_⟩
  · obtain ⟨hanswers, hw, hr⟩ := h.steady hstart (.refl _) h'
    refine ⟨hanswers, List.Nodup.map Pad.label_injective ?_, hr.finish⟩
    have hspares := hw.nodup
    rw [zero_add, sparePads_eq, Multiset.coe_add] at hspares
    exact Multiset.coe_nodup.1 hspares
  · obtain ⟨-, st, w, hc, rfl⟩ := Film.ofScene_eq_ok hfilm
    obtain ⟨ops, answers, h⟩ := (Film.composed_streams root frame.resolution).leads hc
    refine ⟨ops, answers, ⟨w, h⟩, fun answers' w' h' => ?_⟩
    exact (h.steady hstart (.refl _) h').2.2.finish.symm

/-- Canvases of two sizes are asked for. -/
def twoCanvases : List (Operation Rat Word) :=
  [.request (.canvas .seq (.pixel (PixelCount.ofInt 4)) (.pixel (PixelCount.ofInt 2)) none),
    .request (.canvas .seq (.pixel (PixelCount.ofInt 2)) (.pixel (PixelCount.ofInt 4)) none)]

/-- A workshop for small frames, before the first request. -/
def smallStart : Workshop Rat Word :=
  start ⟨⟨4, 4⟩, 25⟩ 48000

theorem finish_unordered_canvases :
    ∃ answers w w', smallStart.Leads twoCanvases answers w ∧
      smallStart.Leads twoCanvases answers w' ∧
      w.canvases.map Prod.fst ≠ w'.canvases.map Prod.fst ∧ w.finish = w'.finish := by
  let first := twoCanvases[0].perform smallStart
  let second := twoCanvases[1].perform first.2
  let swapped : Workshop Rat Word := { second.2 with canvases := second.2.canvases.reverse }
  have hswapped : second.2.Reorders swapped :=
    ⟨rfl, rfl, rfl, (List.reverse_perm _).symm, .refl _⟩
  have h : smallStart.Leads twoCanvases [first.1, second.1] second.2 :=
    .perform (.refl _) (.perform (.refl _) (.done (.refl _)))
  have h' : smallStart.Leads twoCanvases [first.1, second.1] swapped :=
    .perform (.refl _) (.perform (.refl _) (.done hswapped))
  exact ⟨_, _, _, h, h', by decide +kernel, ((finish_unordered _ _).1 _ _ _ _ _ h h').2.2⟩

end Workshop
end Montage
