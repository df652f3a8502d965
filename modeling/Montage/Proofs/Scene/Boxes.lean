import Montage.Proofs.Scene.Built

/-!
# Boxes of built scenes

Which sizes are pixels once a scene is built.

**Input.** A document and a probe.

**Algorithm.** Paddings are resolved for every style. A side of a leaf of media is declared or taken
from its picture, a side of a container is declared or settled over the children that can be seen.

**Results.** `Document.exists_allBoxed`: so it is in every node, and the leaves of a file were told the
same about it.
-/

namespace Montage

variable {τ π : Type}

/-- A length in pixels. -/
def Length.IsConcrete (l : Length π) : Prop :=
  ∃ n, l = .pixel n

/-- All sides are in pixels. -/
structure Edges.IsConcrete (e : Edges π) : Prop where
  top : e.top.IsConcrete
  right : e.right.IsConcrete
  bottom : e.bottom.IsConcrete
  left : e.left.IsConcrete

/-- A length that is resolved is in pixels or open. -/
theorem Length.resolve_cases [PixelCount π] (parent natural : Option π) (frame : Resolution)
    (l : Length π) :
    l.resolve parent natural frame = .auto ∨ (l.resolve parent natural frame).IsConcrete := by
  cases l with
  | auto => exact Or.inl rfl
  | pixel n => exact Or.inr ⟨n, rfl⟩
  | percent share =>
      cases parent with
      | some p => exact Or.inr ⟨_, rfl⟩
      | none =>
          cases natural with
          | some n => exact Or.inr ⟨n, rfl⟩
          | none => exact Or.inl rfl
  | _ => exact Or.inr ⟨_, rfl⟩

namespace Style

/-- The box has both of its sides. -/
structure IsSized (style : Style τ π) : Prop where
  width : style.width.IsConcrete
  height : style.height.IsConcrete

/-- The paddings are in pixels, and so is every side that is not open. -/
structure IsMeasured (style : Style τ π) : Prop where
  padding : style.padding.IsConcrete
  width : style.width = .auto ∨ style.width.IsConcrete
  height : style.height = .auto ∨ style.height.IsConcrete

section

variable [PixelCount π]

theorem isConcrete_resolveEdge (parent : Option π) (frame : Resolution) (l : Length π) :
    (resolveEdge parent frame l).IsConcrete := by
  unfold resolveEdge
  split
  · exact ⟨_, rfl⟩
  · exact ⟨0, rfl⟩

theorem source_fitSource (s : Style τ π) : s.fitSource.source = s.source := by
  unfold fitSource
  simp only
  repeat' split
  all_goals rfl

theorem padding_fitSource (s : Style τ π) : s.fitSource.padding = s.padding := by
  unfold fitSource
  simp only
  repeat' split
  all_goals rfl

/-- A leaf whose media have a picture has both sides. -/
theorem IsMeasured.fitSource {s : Style τ π} (h : s.IsMeasured) {w n : π}
    (hw : s.source.width = some w) (hn : s.source.height = some n) : s.fitSource.IsSized := by
  obtain ⟨_, hwidth, hheight⟩ := h
  unfold Style.fitSource
  rw [hw, hn]
  rcases hwidth with hwidth | ⟨a, hwidth⟩ <;> rcases hheight with hheight | ⟨b, hheight⟩ <;>
    simp only [hwidth, hheight, Length.pixels?, Length.isAuto, Bool.false_eq_true, if_true, if_false]
  · exact ⟨⟨w, rfl⟩, ⟨n, rfl⟩⟩
  · split <;> exact ⟨⟨_, rfl⟩, ⟨_, rfl⟩⟩
  · split <;> exact ⟨⟨_, rfl⟩, ⟨_, rfl⟩⟩
  · exact ⟨⟨a, hwidth⟩, ⟨b, hheight⟩⟩

theorem padding_settleExtent (s : Style τ π) (visible : List (Style τ π)) (axis : Axis) :
    (s.settleExtent visible axis).padding = s.padding := by
  unfold settleExtent
  split
  · cases axis <;> rfl
  · rfl

theorem height_settleExtent (s : Style τ π) (visible : List (Style τ π)) :
    (s.settleExtent visible .horizontal).height = s.height := by
  unfold settleExtent
  split <;> rfl

theorem width_settleExtent (s : Style τ π) (visible : List (Style τ π)) :
    (s.settleExtent visible .vertical).width = s.width := by
  unfold settleExtent
  split <;> rfl

/-- A side that is settled is in pixels. -/
theorem isConcrete_settleExtent {s : Style τ π} (axis : Axis)
    (h : s.extent axis = .auto ∨ (s.extent axis).IsConcrete) (visible : List (Style τ π)) :
    ((s.settleExtent visible axis).extent axis).IsConcrete := by
  have hset : ∀ l : Length π, (s.setExtent axis l).extent axis = l := by
    intro l
    cases axis <;> rfl
  unfold settleExtent
  rcases h with h | ⟨n, h⟩
  · rw [h, Length.isAuto, if_pos rfl, hset]
    split
    · exact ⟨_, rfl⟩
    · exact ⟨_, rfl⟩
  · rw [h, if_neg (by simp [Length.isAuto])]
    exact ⟨n, h⟩

variable [Timescale τ]

theorem padding_settle (s : Style τ π) (children visible : List (Style τ π)) :
    (s.settle children visible).padding = s.padding := by
  have hlength : (s.settleLength children).padding = s.padding := by
    unfold settleLength
    split <;> rfl
  unfold settle
  simp only
  split
  · exact hlength
  · rw [padding_settleExtent, padding_settleExtent, hlength]

/-- A container with a child that can be seen has both sides. -/
theorem IsMeasured.settle {s : Style τ π} (h : s.IsMeasured) (children : List (Style τ π))
    {visible : List (Style τ π)} (hv : visible ≠ []) : (s.settle children visible).IsSized := by
  have hwidth : (s.settleLength children).width = s.width := by
    unfold settleLength
    split <;> rfl
  have hheight : (s.settleLength children).height = s.height := by
    unfold settleLength
    split <;> rfl
  unfold Style.settle
  simp only
  rw [if_neg (by simpa using hv)]
  constructor
  · rw [width_settleExtent]
    refine isConcrete_settleExtent .horizontal ?_ visible
    rw [extent, hwidth]
    exact h.width
  · refine isConcrete_settleExtent .vertical ?_ visible
    rw [extent, height_settleExtent, hheight]
    exact h.height

theorem isMeasured_resolve (s : Style τ π) (text : Option String) (parent : Option (Style τ π))
    (frame : Frame τ) : (s.resolve text parent frame).IsMeasured := by
  refine ⟨⟨?_, ?_, ?_, ?_⟩, Length.resolve_cases _ _ _ _, Length.resolve_cases _ _ _ _⟩ <;>
    exact isConcrete_resolveEdge _ _ _

theorem source_resolve (s : Style τ π) (parent : Option (Style τ π)) (frame : Frame τ) :
    (s.resolve none parent frame).source = s.source :=
  rfl

end

end Style

namespace Scene

variable [PixelCount π]

/-- What is known about the boxes of a built scene: paddings are in pixels, media were told, and what
can be seen has both sides. -/
inductive IsBoxed (cache : ProbeCache τ) : Scene τ π → Prop
  | leaf {tag : Tag} {kind : MediaKind} {locator : Locator} {style : Style τ π}
      (hp : style.padding.IsConcrete) (ht : kind = .text → ∃ text, locator = .text text)
      (hm : kind ≠ .text → ∃ path, locator = .path path ∧ IsTold cache kind path style)
      (hs : kind.hasVideo = true → kind ≠ .text → style.IsSized) :
      IsBoxed cache (.leaf tag kind locator style)
  | container {tag : Tag} {style : Style τ π} {items : List (Scene τ π)}
      (hp : style.padding.IsConcrete) (hs : anyVideo items = true → style.IsSized) :
      IsBoxed cache (.container tag style items)

theorem IsBoxed.extends {cache cache' : ProbeCache τ} {node : Scene τ π} (h : node.IsBoxed cache)
    (he : cache.Extends cache') : node.IsBoxed cache' := by
  cases h with
  | leaf hp ht hm hs =>
      refine .leaf hp ht (fun hk => ?_) hs
      obtain ⟨path, hpath, info, hfind, hfacts⟩ := hm hk
      exact ⟨path, hpath, info, he _ _ hfind, hfacts⟩
  | container hp hs => exact .container hp hs

/-- Where all nodes are boxed, media leaves were told the same memory. -/
theorem isTold_of_isBoxed {cache : ProbeCache τ} {root : Scene τ π}
    (h : ∀ node : Scene τ π, node.Within root → node.IsBoxed cache) {tag : Tag} {kind : MediaKind}
    {path : Path} {style : Style τ π} (hw : (leaf tag kind (.path path) style).Within root) :
    kind ≠ .text ∧ IsTold cache kind path style := by
  have hbox := h _ hw
  cases hbox with
  | leaf hp ht hm hs =>
      have hk : kind ≠ .text := by
        intro hk
        obtain ⟨text, htext⟩ := ht hk
        cases htext
      obtain ⟨p, hpath, htold⟩ := hm hk
      cases hpath
      exact ⟨hk, htold⟩

end Scene

/-- Only a text has a body. -/
theorem Node.body?_eq_none {node : Node} {kind : MediaKind} (hk : node.tag.kind? = some kind)
    (ht : kind ≠ .text) : node.body? = none := by
  unfold body?
  split
  · next htag =>
      rw [htag] at hk
      exact absurd (Option.some.inj hk).symm ht
  · rfl

section

open Probing

variable [PixelCount π] {c : Styling τ}

/-- The facts of media are those that are remembered of their file. -/
theorem Styling.learns_facts (c : Styling τ) (node : Node) (source : Option Path) :
    Learns (c.facts node source : Probing τ (SourceFacts τ π)) fun cache facts =>
      ∀ kind, node.tag.kind? = some kind → kind ≠ .text →
        ∃ path info, source = some path ∧ cache.find? path = some info ∧
          info.facts kind = .ok facts := by
  unfold facts
  split
  · next hk => exact .pure fun cache kind hk' => by simp [hk] at hk'
  · next hk =>
      refine .pure fun cache kind hk' ht => ?_
      rw [hk] at hk'
      exact absurd (Option.some.inj hk').symm ht
  · next kind _ hk =>
      split
      · exact .throw _
      · next path =>
          refine .bind (learns_info c.probe path) (fun c c' info he h => he _ _ h) ?_
          intro info
          split
          · next facts hfacts =>
              refine .pure fun cache hfind kind' hk' _ => ?_
              rw [hk] at hk'
              cases hk'
              exact ⟨path, info, rfl, hfind, hfacts⟩
          · exact .throw _

variable [Timescale τ]

/-- What is known about a style that was found for a node. -/
structure Style.IsFound (cache : ProbeCache τ) (node : Node) (source : Option Path)
    (style : Style τ π) : Prop where
  measured : style.IsMeasured
  told : ∀ kind, node.tag.kind? = some kind → kind ≠ .text →
    ∃ path, source = some path ∧ Scene.IsTold cache kind path style

theorem Styling.learns_style (c : Styling τ) (node : Node) (ancestors : List Identity)
    (parent : Option (Style τ π)) (source : Option Path) :
    Learns (c.style node ancestors parent source) fun cache style =>
      style.IsFound cache node source := by
  refine .bind (c.learns_facts node source) ?_ ?_
  · intro c c' facts he h kind hk ht
    obtain ⟨path, info, hs, hfind, hfacts⟩ := h kind hk ht
    exact ⟨path, info, hs, he _ _ hfind, hfacts⟩
  · intro facts
    refine .pure fun cache h => ⟨Style.isMeasured_resolve _ _ _ _, fun kind hk ht => ?_⟩
    obtain ⟨path, info, hs, hfind, hfacts⟩ := h kind hk ht
    refine ⟨path, hs, info, hfind, ?_⟩
    rw [Node.body?_eq_none hk ht, Style.source_resolve, Style.source_withAttributes,
      Style.source_declareAll]
    exact hfacts

omit [Timescale τ] in
/-- A leaf of a style that was found is boxed. -/
theorem Scene.isBoxed_leaf {cache : ProbeCache τ} {node : Node} {source : Option Path}
    {style : Style τ π} (h : style.IsFound cache node source) {kind : MediaKind}
    (hk : node.tag.kind? = some kind) (ht : kind = .text → source = none) :
    (Scene.leaf node.tag kind (node.locator source) style.fitSource).IsBoxed cache := by
  refine .leaf (style.padding_fitSource ▸ h.measured.padding) ?_ ?_ ?_
  · intro htext
    rw [ht htext]
    exact ⟨_, rfl⟩
  · intro hmedia
    obtain ⟨path, hs, info, hfind, hfacts⟩ := h.told kind hk hmedia
    exact ⟨path, by rw [hs]; rfl, info, hfind, by rw [style.source_fitSource, hfacts]⟩
  · intro hv hmedia
    obtain ⟨path, _, htold⟩ := h.told kind hk hmedia
    obtain ⟨w, n, hw, hn⟩ := htold.needs.1 hv hmedia
    exact h.measured.fitSource hw hn

omit [PixelCount π] [Timescale τ] in
theorem Scene.visibleStyles_ne_nil {items : List (Scene τ π)} (h : anyVideo items = true) :
    visibleStyles items ≠ [] := by
  rw [anyVideo_eq_any, List.any_eq_true] at h
  obtain ⟨item, hi, hshown⟩ := h
  rw [visibleStyles, ne_eq, List.map_eq_nil_iff, List.filter_eq_nil_iff]
  exact fun hnone => hnone item hi hshown

/-- A container of a style that was found is boxed. -/
theorem Scene.isBoxed_settle {cache : ProbeCache τ} {tag : Tag} {style : Style τ π}
    (h : style.IsMeasured) (items : List (Scene τ π)) :
    (Scene.container tag style items).settle.IsBoxed cache := by
  exact .container (style.padding_settle _ _ ▸ h.padding) fun hv =>
    h.settle _ (visibleStyles_ne_nil hv)

/-- All nodes of a scene are boxed by what is remembered. -/
def Scene.AllBoxed (cache : ProbeCache τ) (scene : Scene τ π) : Prop :=
  ∀ node : Scene τ π, node.Within scene → node.IsBoxed cache

omit [Timescale τ] in
theorem Scene.AllBoxed.extends {cache cache' : ProbeCache τ} {scene : Scene τ π}
    (h : scene.AllBoxed cache) (he : cache.Extends cache') : scene.AllBoxed cache' :=
  fun node hn => (h node hn).extends he

omit [Timescale τ] in
/-- A node that is found is the node itself. -/
theorem Probing.Learns.found {s : Scene τ π} {given : ProbeCache τ → Scene τ π → Prop}
    (h : ∀ c, given c s) : Learns s.found given := by
  unfold Scene.found
  split
  · exact .throw _
  · exact .pure h

mutual

/-- All nodes of the scene of a node are boxed. -/
theorem learns_sceneOfNode (baseDir : Path) :
    ∀ (n : Node) (ancestors : List Identity) (parent : Option (Style τ π)),
      Learns (sceneOfNode c baseDir ancestors parent n) fun cache scene => scene.AllBoxed cache
  | ⟨tag, attributes, children, text⟩, ancestors, parent => by
      rw [sceneOfNode]
      refine .bind (c.learns_style _ ancestors parent _) ?_ ?_
      · intro c c' style he h
        refine ⟨h.measured, fun kind hk ht => ?_⟩
        obtain ⟨path, hs, info, hfind, hfacts⟩ := h.told kind hk ht
        exact ⟨path, hs, info, he _ _ hfind, hfacts⟩
      intro style
      split
      · next kind hk =>
          refine .found fun cache h => Scene.forall_within_leaf.2 (Scene.isBoxed_leaf h hk ?_)
          rintro rfl
          simp [Node.source?, hk]
      · refine .bind (learns_scenesOfNodes baseDir children _ style)
          (fun c c' items he h item hi => (h item hi).extends he) ?_
        intro items
        refine .found fun cache hitems hfound => Scene.forall_within_container.2 ⟨?_, hitems⟩
        exact Scene.isBoxed_settle hfound.measured items

theorem learns_scenesOfNodes (baseDir : Path) :
    ∀ (ns : List Node) (ancestors : List Identity) (parent : Style τ π),
      Learns (scenesOfNodes c baseDir ancestors parent ns) fun cache scenes =>
        ∀ scene ∈ scenes, scene.AllBoxed cache
  | [], ancestors, parent => by
      rw [scenesOfNodes]
      exact .pure (by simp)
  | n :: ns, ancestors, parent => by
      rw [scenesOfNodes]
      refine .bind (learns_sceneOfNode baseDir n ancestors (some parent))
        (fun c c' scene he h => h.extends he) ?_
      intro first
      refine .bind (learns_scenesOfNodes baseDir ns ancestors parent)
        (fun c c' scenes he h scene hs => (h scene hs).extends he) ?_
      intro others
      refine .pure fun cache hothers hfirst scene hs => ?_
      rcases List.mem_cons.1 hs with rfl | hs
      · exact hfirst
      · exact hothers scene hs

end

/-- All nodes of the scene of a document are boxed, and what its leaves were told is remembered. -/
theorem Document.exists_allBoxed {d : Document τ} {probe : Probe τ} {root : Scene τ π}
    (h : d.scene probe = .ok root) : ∃ cache, root.AllBoxed cache := by
  obtain ⟨cache, hrun⟩ := d.exists_run_of_scene h
  exact ⟨cache, (learns_sceneOfNode d.baseDir d.root [] none _ _ _ hrun).2⟩

end
end Montage
