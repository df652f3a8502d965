import Montage.Proofs.Scene.Built

/-!
# Drafts

A scene is built in two passes: its styles are resolved from the root down, and what they leave open
is filled in from the leaves up. The draft of a scene is what lies between.

**Input.** A document and a probe.

**Algorithm.** Children are styled by the resolved style of their parent, never by the one that is
filled in, so the passes can be taken apart (`Document.scene_of_draft`). Only a calculation that stops
the program while it fills in a node comes before what is styled after that node.

**Results.**
* `Document.scene_of_draft`, `Document.scene_of_error`: the scene of a document, in terms of its draft.
* `Scene.exists_of_within_finish`: every node of a scene is filled in from a node of its draft.
* `Document.isStyled_draft`: every style of a draft comes from a node of the document, under a
  parent of which an invariant of the cascade holds.
-/

namespace Montage

variable {τ π : Type}

namespace Node

mutual

/-- A node and all nodes below it. -/
def nodes : Node → List Node
  | ⟨tag, attributes, children, text⟩ => ⟨tag, attributes, children, text⟩ :: nodesOf children

/-- Some nodes and all nodes below them. -/
def nodesOf : List Node → List Node
  | [] => []
  | n :: ns => n.nodes ++ nodesOf ns

end

theorem mem_nodes_self (n : Node) : n ∈ n.nodes := by
  cases n
  exact List.mem_cons_self

end Node

section

variable [Timescale τ] [PixelCount π]

namespace Styling

/-- The style of a node whose media are known. -/
def styleOf (c : Styling τ) (node : Node) (ancestors : List Identity) (parent : Option (Style τ π))
    (facts : SourceFacts τ π) : Style τ π :=
  let s := { base node parent with source := facts }
  ((s.declareAll (c.declarations node ancestors)).withAttributes node).resolve node.body? parent
    c.frame

/-- The facts about the media of a node: those that the probe tells of its file, and none for texts
and containers. -/
inductive Tells (c : Styling τ) (node : Node) (source : Option Path) : SourceFacts τ π → Prop
  | unknown (h : node.tag.kind? = none ∨ node.tag.kind? = some .text) :
      Tells c node source .unknown
  | media {kind : MediaKind} {path p : Path} {info : MediaInfo τ} {facts : SourceFacts τ π}
      (hk : node.tag.kind? = some kind) (ht : kind ≠ .text) (hs : source = some path)
      (hp : p.same path = true) (hi : c.probe p = .ok info) (hf : info.facts kind = .ok facts) :
      Tells c node source facts

end Styling

mutual

/-- The draft of a node, whose ancestors are given from the parent outward. -/
def draftOfNode (c : Styling τ) (baseDir : Path) (ancestors : List Identity)
    (parent : Option (Style τ π)) : Node → Probing τ (Scene τ π)
  | ⟨tag, attributes, children, text⟩ => do
      let node : Node := ⟨tag, attributes, children, text⟩
      let source := node.source? baseDir
      let style ← c.style node ancestors parent source
      match tag.kind? with
      | some kind => pure (.leaf tag kind (node.locator source) style)
      | none => do
          let items ← draftsOfNodes c baseDir (.ofNode node :: ancestors) style children
          pure (.container tag style items)

/-- The drafts of the children of a node. -/
def draftsOfNodes (c : Styling τ) (baseDir : Path) (ancestors : List Identity)
    (parent : Style τ π) : List Node → Probing τ (List (Scene τ π))
  | [] => pure []
  | n :: ns => do
      let first ← draftOfNode c baseDir ancestors (some parent) n
      let others ← draftsOfNodes c baseDir ancestors parent ns
      pure (first :: others)

end

namespace Scene

mutual

/-- Fills in what the styles of a draft leave open. -/
def finish : Scene τ π → Scene τ π
  | leaf tag kind locator style => leaf tag kind locator style.fitSource
  | container tag style items => (container tag style (finishAll items)).settle

/-- Fills in what the styles of drafts leave open. -/
def finishAll : List (Scene τ π) → List (Scene τ π)
  | [] => []
  | s :: rest => s.finish :: finishAll rest

end

end Scene

/-- The draft of a document. -/
def Document.draft (d : Document τ) (probe : Probe τ) : Except Failure (Scene τ π) :=
  let c : Styling τ := ⟨d.sheet, d.frame, probe⟩
  (draftOfNode c d.baseDir [] none d.root).run ProbeCache.empty |>.run.1

/-! ### The two passes -/

namespace Scene

mutual

/-- The pixels of a scene, in the order in which a program finds them. -/
def counts : Scene τ π → List π
  | leaf _ _ _ style => style.counts
  | container _ style items => countsAll items ++ style.counts

/-- The pixels of scenes, in the order in which a program finds them. -/
def countsAll : List (Scene τ π) → List π
  | [] => []
  | s :: rest => s.counts ++ countsAll rest

end

section

omit [Timescale τ] [PixelCount π]

mutual

theorem mem_counts {n : π} : ∀ {s : Scene τ π},
    n ∈ s.counts ↔ ∃ node : Scene τ π, node.Within s ∧ n ∈ node.style.counts
  | leaf tag kind locator style => by
      constructor
      · exact fun h => ⟨_, .self _, h⟩
      · rintro ⟨node, hnode, h⟩
        cases hnode
        exact h
  | container tag style items => by
      rw [counts, List.mem_append, mem_countsAll]
      constructor
      · rintro (⟨i, hi, node, hnode, h⟩ | h)
        · exact ⟨node, .item hi hnode, h⟩
        · exact ⟨_, .self _, h⟩
      · rintro ⟨node, hnode, h⟩
        cases hnode with
        | self => exact Or.inr h
        | item hi hnode => exact Or.inl ⟨_, hi, node, hnode, h⟩

theorem mem_countsAll {n : π} : ∀ {items : List (Scene τ π)},
    n ∈ countsAll items ↔
      ∃ i ∈ items, ∃ node : Scene τ π, node.Within i ∧ n ∈ node.style.counts
  | [] => by simp [countsAll]
  | s :: rest => by
      rw [countsAll, List.mem_append, mem_counts, mem_countsAll]
      simp only [List.exists_mem_cons_iff]

end

end

/-- The calculation that stops a program while it builds a scene. -/
def mishap? (s : Scene τ π) : Option Calculation :=
  PixelCount.firstMishap? s.counts

omit [Timescale τ] in
/-- A scene stops no program if and only if all counts of its nodes are found. -/
theorem mishap?_eq_none {s : Scene τ π} : s.mishap? = none ↔
    ∀ node : Scene τ π, node.Within s → ∀ n ∈ node.style.counts, PixelCount.IsFound n := by
  rw [mishap?, PixelCount.firstMishap?_eq_none]
  constructor
  · exact fun h node hnode n hn => h n (mem_counts.2 ⟨node, hnode, hn⟩)
  · intro h n hn
    obtain ⟨node, hnode, hn⟩ := mem_counts.1 hn
    exact h node hnode n hn

end Scene

namespace Probing

variable {α β σ : Type}

/-- How a walk ends that fills in what another walk has styled. It ends where the other does, unless a
calculation stops the program: one on the way to the counts of what is filled in, or one before the
failure of the other walk. -/
inductive Ends (fill : α → β) (counts : β → List π) :
    Except Failure α × ProbeCache τ → Except Failure β × ProbeCache τ → Prop
  | done {a : α} {cache : ProbeCache τ} (h : PixelCount.firstMishap? (counts (fill a)) = none) :
      Ends fill counts (.ok a, cache) (.ok (fill a), cache)
  | stopped {a : α} {c : Calculation} {cache cache' : ProbeCache τ}
      (h : PixelCount.firstMishap? (counts (fill a)) = some c) :
      Ends fill counts (.ok a, cache) (.error (.mishap c), cache')
  | failed {e : Failure} {cache : ProbeCache τ} :
      Ends fill counts (.error e, cache) (.error e, cache)
  | before {e : Failure} {n : π} {c : Calculation} {cache cache' : ProbeCache τ}
      (h : PixelCount.mishap? n = some c) :
      Ends fill counts (.error e, cache) (.error (.mishap c), cache')

/-- A walk fills in what another walk styles. -/
def Fills (fill : α → β) (counts : β → List π) (draft : Probing τ α) (scene : Probing τ β) : Prop :=
  ∀ cache, Ends fill counts (draft cache) (scene cache)

omit [Timescale τ] in
theorem bind_apply (c : Probing τ α) (f : α → Probing τ β) (cache : ProbeCache τ) :
    (c >>= f) cache =
      match c cache with
      | (.ok a, cache) => f a cache
      | (.error e, cache) => (.error e, cache) := by
  simp only [Bind.bind, ExceptT.bind, ExceptT.mk, StateT.bind]
  rcases c cache with ⟨e | a, cache'⟩ <;> rfl

namespace Fills

variable {α' β' : Type} {fill : α → β} {counts : β → List π} {fill' : α' → β'}
  {counts' : β' → List π} {draft : Probing τ α} {scene : Probing τ β}

omit [Timescale τ] in
theorem pure {a : α} (h : PixelCount.firstMishap? (counts (fill a)) = none) :
    Fills (τ := τ) fill counts (Pure.pure a) (Pure.pure (fill a)) :=
  fun _ => .done h

omit [Timescale τ] in
/-- What two walks begin with in common. -/
theorem bind_same {c : Probing τ σ} {f : σ → Probing τ α} {g : σ → Probing τ β}
    (h : ∀ s, Fills fill counts (f s) (g s)) : Fills fill counts (c >>= f) (c >>= g) := by
  intro cache
  rw [bind_apply, bind_apply]
  rcases c cache with ⟨e | s, cache'⟩
  · exact .failed
  · exact h s cache'

omit [Timescale τ] in
/-- What comes after something that is filled in: it is styled in any case, and filled in if no
calculation has stopped the program before. -/
theorem bind {f : α → Probing τ α'} {g : β → Probing τ β'} (h : Fills fill counts draft scene)
    (hnext : ∀ a, PixelCount.firstMishap? (counts (fill a)) = none →
      Fills fill' counts' (f a) (g (fill a)))
    (hmore : ∀ a c, PixelCount.firstMishap? (counts (fill a)) = some c →
      ∀ cache a' cache', f a cache = (.ok a', cache') →
        PixelCount.firstMishap? (counts' (fill' a')) = some c) :
    Fills fill' counts' (draft >>= f) (scene >>= g) := by
  intro cache
  rw [bind_apply, bind_apply]
  generalize draft cache = d, scene cache = s, h cache = hends
  cases hends with
  | @done a cache h => exact hnext a h cache
  | @stopped a c cache cache' h =>
      simp only
      rcases hf : f a cache with ⟨e | a', cache''⟩
      · obtain ⟨n, -, hn⟩ := PixelCount.exists_of_firstMishap? h
        exact .before hn
      · exact .stopped (hmore a c h cache a' cache'' hf)
  | failed => exact .failed
  | before h => exact .before h

/-- A node is found after its children. -/
theorem found {draft : Scene τ π} (h : draft.finish.mishap? = draft.finish.style.mishap?) :
    Fills Scene.finish Scene.counts (Pure.pure draft) draft.finish.found := by
  intro cache
  unfold Scene.found
  cases hstyle : draft.finish.style.mishap? with
  | none => exact .done (h.trans hstyle)
  | some c => exact .stopped (h.trans hstyle)

end Fills
end Probing

open Probing

mutual

theorem fills_sceneOfNode (c : Styling τ) (baseDir : Path) :
    ∀ (n : Node) (ancestors : List Identity) (parent : Option (Style τ π)),
      Fills Scene.finish Scene.counts (draftOfNode c baseDir ancestors parent n)
        (sceneOfNode c baseDir ancestors parent n)
  | ⟨tag, attributes, children, text⟩, ancestors, parent => by
      rw [sceneOfNode, draftOfNode]
      refine .bind_same fun style => ?_
      cases tag.kind? with
      | some kind => exact .found rfl
      | none =>
          refine .bind (fills_scenesOfNodes c baseDir children _ style) ?_ ?_
          · intro items hitems
            exact .found (PixelCount.firstMishap?_append_of_none hitems)
          · intro items calculation hitems cache draft cache' hdraft
            cases hdraft
            exact PixelCount.firstMishap?_append_of_some hitems

theorem fills_scenesOfNodes (c : Styling τ) (baseDir : Path) :
    ∀ (ns : List Node) (ancestors : List Identity) (parent : Style τ π),
      Fills Scene.finishAll Scene.countsAll (draftsOfNodes c baseDir ancestors parent ns)
        (scenesOfNodes c baseDir ancestors parent ns)
  | [], ancestors, parent => by
      rw [scenesOfNodes, draftsOfNodes]
      exact .pure (a := ([] : List (Scene τ π))) rfl
  | n :: ns, ancestors, parent => by
      rw [scenesOfNodes, draftsOfNodes]
      refine .bind (fills_sceneOfNode c baseDir n ancestors (some parent)) ?_ ?_
      · intro first hfirst
        refine .bind (fills_scenesOfNodes c baseDir ns ancestors parent) ?_ ?_
        · intro others hothers
          exact .pure (a := first :: others)
            ((PixelCount.firstMishap?_append_of_none hfirst).trans hothers)
        · intro others calculation hothers cache drafts cache' hdrafts
          cases hdrafts
          exact (PixelCount.firstMishap?_append_of_none hfirst).trans hothers
      · intro first calculation hfirst cache drafts cache' hdrafts
        obtain ⟨others, cache₁, -, hpure⟩ := bind_eq_ok hdrafts
        cases hpure
        exact PixelCount.firstMishap?_append_of_some hfirst

end

namespace Document

variable {d : Document τ} {probe : Probe τ}

theorem ends_scene (d : Document τ) (probe : Probe τ) :
    ∃ cache cache' : ProbeCache τ,
      Ends Scene.finish Scene.counts ((d.draft probe : Except Failure (Scene τ π)), cache)
        (d.scene probe, cache') :=
  ⟨_, _, fills_sceneOfNode ⟨d.sheet, d.frame, probe⟩ d.baseDir d.root [] none ProbeCache.empty⟩

/-- The scene of a document is its draft, filled in, unless a calculation stops the program on the
way to one of its counts. -/
theorem scene_of_draft {draft : Scene τ π} (h : d.draft probe = .ok draft) :
    d.scene probe =
      match draft.finish.mishap? with
      | none => .ok draft.finish
      | some c => .error (.mishap c) := by
  obtain ⟨cache, cache', hends⟩ := ends_scene (π := π) d probe
  rw [h] at hends
  generalize (d.scene probe : Except Failure (Scene τ π)) = run at hends ⊢
  cases hends with
  | done h => rw [Scene.mishap?, h]
  | stopped h => rw [Scene.mishap?, h]

/-- A document whose draft fails has no scene: it fails alike, unless a calculation stops the program
before. -/
theorem scene_of_error {e : Failure} (h : (d.draft probe : Except Failure (Scene τ π)) = .error e) :
    (d.scene probe : Except Failure (Scene τ π)) = .error e ∨
      ∃ (n : π) (c : Calculation), PixelCount.mishap? n = some c ∧
        (d.scene probe : Except Failure (Scene τ π)) = .error (.mishap c) := by
  obtain ⟨cache, cache', hends⟩ := ends_scene (π := π) d probe
  rw [h] at hends
  generalize (d.scene probe : Except Failure (Scene τ π)) = run at hends ⊢
  cases hends with
  | failed => exact Or.inl rfl
  | before h => exact Or.inr ⟨_, _, h, rfl⟩

theorem exists_draft {root : Scene τ π} (h : d.scene probe = .ok root) :
    ∃ draft, d.draft probe = .ok draft ∧ root = draft.finish := by
  cases hdraft : (d.draft probe : Except Failure (Scene τ π)) with
  | error e =>
      rcases scene_of_error hdraft with he | ⟨n, c, -, hc⟩
      · cases he.symm.trans h
      · cases hc.symm.trans h
  | ok draft =>
      rw [scene_of_draft hdraft] at h
      split at h
      · cases h
        exact ⟨draft, rfl, rfl⟩
      · cases h

/-- The program has found every node of a scene that it has built. -/
theorem found_of_scene {root : Scene τ π} (h : d.scene probe = .ok root) :
    ∀ node : Scene τ π, node.Within root → node.style.mishap? = none := by
  obtain ⟨draft, hdraft, rfl⟩ := exists_draft h
  rw [scene_of_draft hdraft] at h
  split at h
  · next hnone =>
      have hfound := Scene.mishap?_eq_none.1 hnone
      exact fun node hnode => PixelCount.firstMishap?_eq_none.2 (hfound node hnode)
  · cases h

end Document

namespace Scene

mutual

theorem hasVideo_finish : ∀ s : Scene τ π, s.finish.hasVideo = s.hasVideo
  | leaf tag kind locator style => rfl
  | container tag style items => by
      rw [finish, settle, hasVideo, hasVideo, anyVideo_finishAll items]

theorem anyVideo_finishAll : ∀ items : List (Scene τ π), anyVideo (finishAll items) = anyVideo items
  | [] => rfl
  | s :: rest => by
      rw [finishAll, anyVideo, anyVideo, hasVideo_finish s, anyVideo_finishAll rest]

end

theorem finishAll_eq_map (items : List (Scene τ π)) : finishAll items = items.map finish := by
  induction items with
  | nil => rfl
  | cons s rest ih => rw [finishAll, List.map_cons, ih]

/-- Every node of a draft is filled in to a node of the scene. -/
theorem within_finish {part draft : Scene τ π} (h : part.Within draft) :
    part.finish.Within draft.finish := by
  induction h with
  | self => exact .self _
  | item hi _ ih =>
      refine .item ?_ ih
      rw [finishAll_eq_map]
      exact List.mem_map_of_mem hi

/-- Every node of a scene is filled in from a node of its draft. -/
theorem exists_of_within_finish {node root : Scene τ π} (h : node.Within root) :
    ∀ {draft : Scene τ π}, root = draft.finish →
      ∃ part : Scene τ π, part.Within draft ∧ node = part.finish := by
  induction h with
  | self => exact fun {draft} heq => ⟨draft, .self draft, heq⟩
  | item hi _ ih =>
      intro draft heq
      cases draft with
      | leaf => cases heq
      | container tag' style' items' =>
          cases heq
          rw [finishAll_eq_map, List.mem_map] at hi
          obtain ⟨first, hfirst, hitem⟩ := hi
          obtain ⟨part, hpart, hnode⟩ := ih hitem.symm
          exact ⟨part, .item hfirst hpart, hnode⟩

end Scene

/-! ### Where the styles of a draft come from -/

open Probing

namespace Styling

omit [Timescale τ] in
theorem gives_tells (c : Styling τ) (node : Node) (source : Option Path) :
    Gives c.probe (c.facts node source : Probing τ (SourceFacts τ π)) (c.Tells node source) := by
  unfold facts
  split
  · next hk => exact .pure (.unknown (Or.inl hk))
  · next hk => exact .pure (.unknown (Or.inr hk))
  · next kind ht hk =>
      split
      · exact .throw _
      · next path =>
          refine .bind (gives_info path) ?_
          rintro info ⟨p, hp, hi⟩
          split
          · next facts hf => exact .pure (.media hk ht rfl hp hi hf)
          · exact .throw _

/-- The style of a node is that of the facts about its media. -/
theorem gives_styleOf (c : Styling τ) (node : Node) (ancestors : List Identity)
    (parent : Option (Style τ π)) (source : Option Path) :
    Gives c.probe (c.style node ancestors parent source) fun style =>
      ∃ facts, c.Tells node source facts ∧ style = c.styleOf node ancestors parent facts :=
  .bind (c.gives_tells node source) fun facts h => .pure ⟨facts, h, rfl⟩

end Styling

/-- A node of a draft has the style that the cascade gives to a node of the document, under a parent
whose style satisfies an invariant. -/
inductive Scene.IsStyled (c : Styling τ) (baseDir : Path) (root : Node) (inv : Style τ π → Prop) :
    Scene τ π → Prop
  | leaf {node : Node} {ancestors : List Identity} {parent : Option (Style τ π)}
      {facts : SourceFacts τ π} {kind : MediaKind} (hn : node ∈ root.nodes)
      (hp : ∀ p, parent = some p → inv p) (ht : c.Tells node (node.source? baseDir) facts)
      (hk : node.tag.kind? = some kind) :
      IsStyled c baseDir root inv
        (.leaf node.tag kind (node.locator (node.source? baseDir))
          (c.styleOf node ancestors parent facts))
  | container {node : Node} {ancestors : List Identity} {parent : Option (Style τ π)}
      {items : List (Scene τ π)} (hn : node ∈ root.nodes) (hp : ∀ p, parent = some p → inv p)
      (hk : node.tag.kind? = none) :
      IsStyled c baseDir root inv
        (.container node.tag (c.styleOf node ancestors parent .unknown) items)

/-- An invariant that the cascade keeps: a style has it if that of the parent has it. -/
def Styling.Upholds (c : Styling τ) (baseDir : Path) (root : Node)
    (inv : Style τ π → Prop) : Prop :=
  ∀ node ∈ root.nodes, ∀ ancestors parent facts, (∀ p, parent = some p → inv p) →
    c.Tells node (node.source? baseDir) facts → inv (c.styleOf node ancestors parent facts)

section

variable {c : Styling τ} {baseDir : Path} {root : Node} {inv : Style τ π → Prop}

mutual

theorem gives_draftOfNode (hinv : c.Upholds baseDir root inv) :
    ∀ (n : Node) (ancestors : List Identity) (parent : Option (Style τ π)),
      (∀ m ∈ n.nodes, m ∈ root.nodes) → (∀ p, parent = some p → inv p) →
      Gives c.probe (draftOfNode c baseDir ancestors parent n) fun draft =>
        ∀ part : Scene τ π, part.Within draft → part.IsStyled c baseDir root inv
  | ⟨tag, attributes, children, text⟩, ancestors, parent, hsub, hparent => by
      rw [draftOfNode]
      refine .bind (c.gives_styleOf _ ancestors parent _) ?_
      rintro style ⟨facts, htells, rfl⟩
      have hnode := hsub _ (Node.mem_nodes_self _)
      split
      · next kind hk =>
          exact .pure (Scene.forall_within_leaf.2 (.leaf hnode hparent htells hk))
      · next hk =>
          have hunknown : facts = .unknown := by
            cases htells with
            | unknown => rfl
            | media hk' => exact absurd (hk.symm.trans hk') (by simp)
          subst hunknown
          have hstyle := hinv _ hnode ancestors parent _ hparent htells
          refine .bind (gives_draftsOfNodes hinv children _ _
            (fun m hm => hsub m (List.mem_cons_of_mem _ hm)) hstyle) ?_
          intro items hitems
          exact .pure (Scene.forall_within_container.2 ⟨.container hnode hparent hk, hitems⟩)

theorem gives_draftsOfNodes (hinv : c.Upholds baseDir root inv) :
    ∀ (ns : List Node) (ancestors : List Identity) (parent : Style τ π),
      (∀ m ∈ Node.nodesOf ns, m ∈ root.nodes) → inv parent →
      Gives c.probe (draftsOfNodes c baseDir ancestors parent ns) fun drafts =>
        ∀ draft ∈ drafts, ∀ part : Scene τ π, part.Within draft →
          part.IsStyled c baseDir root inv
  | [], ancestors, parent, hsub, hparent => by
      rw [draftsOfNodes]
      exact .pure (by simp)
  | n :: ns, ancestors, parent, hsub, hparent => by
      rw [Node.nodesOf] at hsub
      rw [draftsOfNodes]
      refine .bind (gives_draftOfNode hinv n ancestors (some parent)
        (fun m hm => hsub m (List.mem_append_left _ hm)) (by rintro p ⟨⟩; exact hparent)) ?_
      intro first hfirst
      refine .bind (gives_draftsOfNodes hinv ns ancestors parent
        (fun m hm => hsub m (List.mem_append_right _ hm)) hparent) ?_
      intro others hothers
      exact .pure (List.forall_mem_cons.2 ⟨hfirst, hothers⟩)

end

end

namespace Document

/-- What styles a document. -/
def styling (d : Document τ) (probe : Probe τ) : Styling τ :=
  ⟨d.sheet, d.frame, probe⟩

/-- All nodes of the draft of a document are styled by the cascade. -/
theorem isStyled_draft {d : Document τ} {probe : Probe τ} {draft : Scene τ π}
    (h : d.draft probe = .ok draft) {inv : Style τ π → Prop}
    (hinv : (d.styling probe).Upholds d.baseDir d.root inv) :
    ∀ part : Scene τ π, part.Within draft →
      part.IsStyled (d.styling probe) d.baseDir d.root inv := by
  have hgives := gives_draftOfNode hinv d.root [] none (fun m hm => hm) (by simp)
  exact (hgives ProbeCache.empty draft _ (ProbeCache.sound_empty probe) (Prod.ext h rfl)).2

end Document

end
end Montage
