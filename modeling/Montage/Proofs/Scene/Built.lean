import Mathlib.Data.List.Basic
import Montage.Proofs.Scene.Memory
import Montage.Scene.Build

/-!
# Built scenes

What is known about the nodes of a scene that was built from a document.

**Input.** A document with a positive frame rate, and a probe.

**Algorithm.** Nodes are styled from the root down and settled from the leaves up; what is remembered
of a file is what the probe told about it.

**Results.** `Document.isBuilt_scene`: in every node the times are known or open, media have the
duration that the probe told, and a container is open only because its children are.
-/

namespace Montage

variable {τ π : Type}

/-- A known time. -/
def Span.IsKnown (t : Span τ) : Prop :=
  ∃ x, t = .seconds x

theorem Span.IsKnown.ne_fit {t : Span τ} (h : t.IsKnown) : t ≠ .fit := by
  obtain ⟨x, rfl⟩ := h
  simp

/-- Every unit of time is resolved. -/
structure Style.IsResolved (style : Style τ π) : Prop where
  object : style.objectLength.IsKnown ∨ style.objectLength = .fit
  marginStart : style.timeMarginStart.IsKnown
  marginEnd : style.timeMarginEnd.IsKnown
  paddingStart : style.timePaddingStart.IsKnown
  paddingEnd : style.timePaddingEnd.IsKnown

/-- The media of a style last as long as the probe tells of a file. -/
def Style.IsProbed (probe : Probe τ) (path : Path) (style : Style τ π) : Prop :=
  ∃ p info t, p.same path = true ∧ probe p = .ok info ∧ info.duration = some t ∧
    style.source.duration = some t

namespace ProbeCache

/-- What is remembered is what the probe tells. -/
def Sound (probe : Probe τ) (c : ProbeCache τ) : Prop :=
  ∀ e ∈ c.entries, probe e.1 = .ok e.2

theorem sound_empty (probe : Probe τ) : (empty : ProbeCache τ).Sound probe := by
  simp [Sound, empty]

end ProbeCache

namespace Probing

variable {α β : Type} {probe : Probe τ}

/-- A computation keeps what is remembered sound, and what it gives has a property. -/
def Gives (probe : Probe τ) (c : Probing τ α) (given : α → Prop) : Prop :=
  ∀ cache a cache', cache.Sound probe → c cache = (.ok a, cache') →
    cache'.Sound probe ∧ given a

theorem Gives.pure {a : α} {given : α → Prop} (h : given a) :
    Gives probe (Pure.pure a) given := by
  intro cache a' cache' hc h'
  cases h'
  exact ⟨hc, h⟩

theorem Gives.throw (f : Failure) {given : α → Prop} :
    Gives probe (MonadExcept.throw f : Probing τ α) given := by
  intro cache a cache' _ h
  cases h

theorem Gives.bind {c : Probing τ α} {f : α → Probing τ β} {given : α → Prop}
    {given' : β → Prop} (h : Gives probe c given) (hf : ∀ a, given a → Gives probe (f a) given') :
    Gives probe (c >>= f) given' := by
  intro cache b cache'' hc hb
  obtain ⟨a, cache', ha, hb⟩ := bind_eq_ok hb
  obtain ⟨hc', hgiven⟩ := h cache a cache' hc ha
  exact hf a hgiven cache' b cache'' hc' hb

/-- A node that is found is the node itself. -/
theorem Gives.found [PixelCount π] {s : Scene τ π} {given : Scene τ π → Prop} (h : given s) :
    Gives probe s.found given := by
  unfold Scene.found
  split
  · exact .throw _
  · exact .pure h

theorem gives_info (path : Path) :
    Gives probe (Probing.info probe path) fun info =>
      ∃ p, p.same path = true ∧ probe p = .ok info := by
  intro cache info cache' hc h
  change ProbeCache.get probe cache path = _ at h
  unfold ProbeCache.get at h
  split at h
  · next found hfound =>
      cases h
      unfold ProbeCache.find? at hfound
      obtain ⟨e, he, rfl⟩ := Option.map_eq_some_iff.1 hfound
      have hsame := List.find?_some he
      exact ⟨hc, e.1, by simpa using hsame, hc e (List.mem_of_find?_eq_some he)⟩
  · simp only at h
    split at h
    · next hprobe =>
        cases h
        refine ⟨?_, path, by simp [Path.same], hprobe⟩
        intro e he
        rcases List.mem_cons.1 he with rfl | he
        · exact hprobe
        · exact hc e he
    · cases h

end Probing

namespace Style

theorem source_withAttributes (s : Style τ π) (node : Node) :
    (s.withAttributes node).source = s.source := by
  unfold withAttributes
  split
  · split <;> rfl
  · rfl

/-- The box of a style has nothing to do with its times. -/
theorem IsResolved.boxed {s : Style τ π} (h : s.IsResolved) (width height : Length π)
    (margin padding : Edges π) :
    ({ s with width, height, margin, padding } : Style τ π).IsResolved :=
  ⟨h.object, h.marginStart, h.marginEnd, h.paddingStart, h.paddingEnd⟩

variable [PixelCount π]

theorem measured_eq (s : Style τ π) (text : Option String) :
    ∃ width height, s.measured text =
      { s with source := { s.source with width := width, height := height } } := by
  unfold measured
  split
  · exact ⟨s.source.width, s.source.height, rfl⟩
  · split
    · exact ⟨_, _, rfl⟩
    · exact ⟨s.source.width, s.source.height, rfl⟩

theorem IsResolved.measured {s : Style τ π} (h : s.IsResolved) (text : Option String) :
    (s.measured text).IsResolved := by
  obtain ⟨width, height, hm⟩ := measured_eq s text
  rw [hm]
  exact ⟨h.object, h.marginStart, h.marginEnd, h.paddingStart, h.paddingEnd⟩

/-- A leaf that takes the shape of its media changes in its box only. -/
theorem fitSource_eq (s : Style τ π) :
    ∃ width height, s.fitSource = { s with width := width, height := height } := by
  unfold fitSource
  simp only
  repeat' split
  all_goals exact ⟨_, _, rfl⟩

theorem settleExtent_eq (s : Style τ π) (visible : List (Style τ π)) (axis : Axis) :
    ∃ width height, s.settleExtent visible axis = { s with width := width, height := height } := by
  unfold settleExtent
  split
  · cases axis <;> exact ⟨_, _, rfl⟩
  · exact ⟨_, _, rfl⟩

variable [Timescale τ]

/-- A container that is settled changes in its length and its box only. -/
theorem settle_eq (s : Style τ π) (children visible : List (Style τ π)) :
    ∃ width height, s.settle children visible =
      { s.settleLength children with width := width, height := height } := by
  unfold settle
  simp only
  split
  · exact ⟨_, _, rfl⟩
  · obtain ⟨w, h, hh⟩ := settleExtent_eq (s.settleLength children) visible .horizontal
    obtain ⟨w', h', hv⟩ := settleExtent_eq
      ((s.settleLength children).settleExtent visible .horizontal) visible .vertical
    exact ⟨w', h', by rw [hv, hh]⟩

theorem source_declareAll (s : Style τ π) (ds : List Declaration) :
    (s.declareAll ds).source = s.source := by
  unfold declareAll
  induction ds generalizing s with
  | nil => rfl
  | cons d ds ih =>
      rw [List.foldl_cons, ih]
      unfold declare
      split
      · next setting _ => cases setting <;> rfl
      · rfl

end Style

/-- Media that a leaf can use have a duration if leaves of the kind need one. -/
theorem MediaInfo.duration_facts [PixelCount π] (m : MediaInfo τ) {kind : MediaKind}
    {facts : SourceFacts τ π} (hd : kind.hasDuration = true) (h : m.facts kind = .ok facts) :
    ∃ t, m.duration = some t ∧ facts.duration = some t := by
  unfold MediaInfo.facts at h
  split at h
  · cases h
  · next hmissing =>
      cases h
      rw [if_pos hd]
      have hsome : m.duration.isSome = true := by
        cases ht : m.duration with
        | some t => rfl
        | none => cases kind <;> simp_all [MediaInfo.missing?, MediaKind.hasDuration]
      obtain ⟨t, ht⟩ := Option.isSome_iff_exists.1 hsome
      exact ⟨t, ht, ht⟩

variable [Timescale τ]

/-- With a positive frame rate every unit of time is resolved. -/
theorem Span.resolve_isKnown {fps : τ} (h : 0 < fps) (parent natural : Option τ) (t : Span τ) :
    (t.resolve parent natural fps).IsKnown ∨ t.resolve parent natural fps = .fit := by
  cases t with
  | seconds t => exact Or.inl ⟨t, rfl⟩
  | frames n => exact Or.inl ⟨n / fps, by simp [resolve, toSeconds?, h]⟩
  | percent share =>
      cases parent with
      | some p => exact Or.inl ⟨_, rfl⟩
      | none =>
          cases natural with
          | some n => exact Or.inl ⟨_, rfl⟩
          | none => exact Or.inr rfl
  | fit => exact Or.inr rfl
  | source =>
      cases natural with
      | some n => exact Or.inl ⟨_, rfl⟩
      | none => exact Or.inr rfl

namespace Style

variable [PixelCount π]

omit [PixelCount π] in
theorem resolveSpan_isKnown (parent : Option τ) (fps : τ) (t : Span τ) :
    (resolveSpan parent fps t).IsKnown := by
  unfold resolveSpan
  split
  · exact ⟨_, rfl⟩
  · exact ⟨0, rfl⟩

theorem isResolved_resolve (s : Style τ π) (text : Option String) (parent : Option (Style τ π))
    {frame : Frame τ} (h : 0 < frame.fps) : (s.resolve text parent frame).IsResolved := by
  have hspan := resolveSpan_isKnown (parent.bind fun p => p.objectLength.seconds?) frame.fps
  refine IsResolved.boxed (IsResolved.measured ?_ text) _ _ _ _
  exact ⟨Span.resolve_isKnown h _ _ _, hspan _, hspan _, hspan _, hspan _⟩

theorem duration_resolve (s : Style τ π) (text : Option String) (parent : Option (Style τ π))
    (frame : Frame τ) : (s.resolve text parent frame).source.duration = s.source.duration := by
  have hmeasured : ∀ s' : Style τ π, (s'.measured text).source.duration = s'.source.duration := by
    intro s'
    obtain ⟨width, height, hm⟩ := measured_eq s' text
    rw [hm]
  exact hmeasured _

end Style

namespace Styling

open Probing

variable [PixelCount π] (c : Styling τ)

/-- What is known about a style that was found for a node: all units of time are resolved, and media
are found where the node says and have the duration that the probe told. -/
structure Styled (probe : Probe τ) (node : Node) (source : Option Path) (style : Style τ π) :
    Prop where
  resolved : style.IsResolved
  media : ∀ kind, node.tag.kind? = some kind → kind.hasDuration = true →
    ∃ path, source = some path ∧ style.IsProbed probe path

omit [Timescale τ] in
theorem gives_facts (node : Node) (source : Option Path) :
    Gives c.probe (c.facts node source : Probing τ (SourceFacts τ π)) fun facts =>
      ∀ kind, node.tag.kind? = some kind → kind.hasDuration = true →
        ∃ path, source = some path ∧ ∃ p info t, p.same path = true ∧ c.probe p = .ok info ∧
          info.duration = some t ∧ facts.duration = some t := by
  unfold facts
  split
  · next hk => exact Gives.pure fun kind hk' => by simp [hk] at hk'
  · next hk =>
      refine Gives.pure fun kind hk' hd => ?_
      obtain rfl : MediaKind.text = kind := Option.some.inj (hk.symm.trans hk')
      cases hd
  · next kind _ hk =>
      split
      · exact Gives.throw _
      · next path =>
          refine Gives.bind (gives_info path) ?_
          rintro info ⟨p, hp, hinfo⟩
          split
          · next facts hfacts =>
              refine Gives.pure fun kind' hk' hd => ?_
              obtain rfl : kind = kind' := Option.some.inj (hk.symm.trans hk')
              obtain ⟨t, ht, hdur⟩ := info.duration_facts hd hfacts
              exact ⟨path, rfl, p, info, t, hp, hinfo, ht, hdur⟩
          · exact Gives.throw _

theorem gives_style (h : 0 < c.frame.fps) (node : Node) (ancestors : List Identity)
    (parent : Option (Style τ π)) (source : Option Path) :
    Gives c.probe (c.style node ancestors parent source) (Styled c.probe node source) := by
  refine Gives.bind (c.gives_facts node source) ?_
  intro facts hfacts
  refine Gives.pure ⟨Style.isResolved_resolve _ _ _ h, ?_⟩
  intro kind hk hd
  obtain ⟨path, hs, p, info, t, hp, hinfo, ht, hf⟩ := hfacts kind hk hd
  refine ⟨path, hs, p, info, t, hp, hinfo, ht, ?_⟩
  rw [Style.duration_resolve, Style.source_withAttributes, Style.source_declareAll, hf]

end Styling

/-- The length of a sequence is open if it has no children or an open one. -/
theorem sequenceFrom_cases (children : List (Style τ π)) (total pending : τ) :
    (sequenceFrom total pending children).IsKnown ∨
      sequenceFrom total pending children = .fit ∧
        ∃ s ∈ children, s.objectLength.seconds? = none := by
  induction children generalizing total pending with
  | nil => exact Or.inl ⟨_, rfl⟩
  | cons s rest ih =>
      rw [sequenceFrom]
      split
      · next h => exact Or.inr ⟨rfl, s, List.mem_cons_self, h⟩
      · rcases ih _ _ with hknown | ⟨hfit, s', hs', hopen⟩
        · exact Or.inl hknown
        · exact Or.inr ⟨hfit, s', List.mem_cons_of_mem _ hs', hopen⟩

theorem sequenceLength_cases (children : List (Style τ π)) :
    (sequenceLength children).IsKnown ∨
      sequenceLength children = .fit ∧
        (children = [] ∨ ∃ s ∈ children, s.objectLength.seconds? = none) := by
  unfold sequenceLength
  split
  · next h => exact Or.inr ⟨rfl, Or.inl (by simpa using h)⟩
  · rcases sequenceFrom_cases children 0 0 with hknown | ⟨hfit, hopen⟩
    · exact Or.inl hknown
    · exact Or.inr ⟨hfit, Or.inr hopen⟩

/-- The length of a parallel is open if all its children are. -/
theorem parallelLength_cases (children : List (Style τ π)) :
    (parallelLength children).IsKnown ∨
      parallelLength children = .fit ∧ ∀ s ∈ children, s.objectLength.seconds? = none := by
  unfold parallelLength
  split
  · next h => exact Or.inr ⟨rfl, by simpa using h⟩
  · exact Or.inl ⟨_, rfl⟩

namespace Scene

/-- What is known about the nodes of a built scene. -/
inductive IsBuilt (probe : Probe τ) : Scene τ π → Prop
  | leaf {tag : Tag} {kind : MediaKind} {locator : Locator} {style : Style τ π}
      (hr : style.IsResolved)
      (hm : kind.hasDuration = true → ∃ path, locator = .path path ∧ style.IsProbed probe path) :
      IsBuilt probe (.leaf tag kind locator style)
  | container {tag : Tag} {style : Style τ π} {items : List (Scene τ π)} (hr : style.IsResolved)
      (hs : style.order = .sequence → style.objectLength = .fit →
        items = [] ∨ ∃ i ∈ items, i.style.objectLength = .fit)
      (hp : style.order = .parallel → style.objectLength = .fit →
        ∀ i ∈ items, i.style.objectLength = .fit) :
      IsBuilt probe (.container tag style items)

variable {probe : Probe τ}

omit [Timescale τ] in
theorem IsBuilt.resolved {node : Scene τ π} (h : node.IsBuilt probe) : node.style.IsResolved := by
  cases h with
  | leaf hr => exact hr
  | container hr => exact hr

variable [PixelCount π]

/-- A container that is settled over built children is built. -/
theorem isBuilt_settle {tag : Tag} {style : Style τ π} {items : List (Scene τ π)}
    (hr : style.IsResolved) (hi : ∀ i ∈ items, i.style.IsResolved) :
    (Scene.container tag style items).settle.IsBuilt probe := by
  have hopen : ∀ i ∈ items, i.style.objectLength.seconds? = none → i.style.objectLength = .fit := by
    intro i hm hnone
    rcases (hi i hm).object with ⟨x, hx⟩ | hfit
    · rw [hx] at hnone
      cases hnone
    · exact hfit
  obtain ⟨width, height, hsettle⟩ := style.settle_eq (items.map Scene.style) (visibleStyles items)
  -- Whatever length is filled in, it is known, or it is open for a reason.
  have hlength : ∀ l : Span τ, l.IsKnown ∨ l = .fit ∧
      (style.order = .sequence → items = [] ∨ ∃ i ∈ items, i.style.objectLength = .fit) ∧
      (style.order = .parallel → ∀ i ∈ items, i.style.objectLength = .fit) →
      (Scene.container tag { style with objectLength := l, width := width, height := height }
        items).IsBuilt probe := by
    rintro l (hknown | ⟨hfit, hs, hp⟩)
    · exact .container
        ⟨Or.inl hknown, hr.marginStart, hr.marginEnd, hr.paddingStart, hr.paddingEnd⟩
        (fun _ h => absurd h hknown.ne_fit) (fun _ h => absurd h hknown.ne_fit)
    · exact .container
        ⟨Or.inr hfit, hr.marginStart, hr.marginEnd, hr.paddingStart, hr.paddingEnd⟩
        (fun ho _ => hs ho) (fun ho _ => hp ho)
  rw [Scene.settle, hsettle]
  unfold Style.settleLength
  split
  · refine hlength _ ?_
    cases ho : style.order with
    | sequence =>
        rcases sequenceLength_cases (items.map Scene.style) with hknown | ⟨hfit, hnil | hsome⟩
        · exact Or.inl hknown
        · exact Or.inr ⟨hfit, fun _ => Or.inl (by simpa using hnil), by simp⟩
        · obtain ⟨s, hs, hnone⟩ := hsome
          obtain ⟨i, hm, rfl⟩ := List.mem_map.1 hs
          exact Or.inr ⟨hfit, fun _ => Or.inr ⟨i, hm, hopen i hm hnone⟩, by simp⟩
    | parallel =>
        rcases parallelLength_cases (items.map Scene.style) with hknown | ⟨hfit, hnone⟩
        · exact Or.inl hknown
        · refine Or.inr ⟨hfit, by simp, fun _ i hm => ?_⟩
          exact hopen i hm (hnone _ (List.mem_map_of_mem hm))
  · next hclosed =>
      refine hlength style.objectLength (Or.inl ?_)
      rcases hr.object with hknown | hfit
      · exact hknown
      · exact absurd (by rw [hfit]; rfl) hclosed

end Scene

section

open Probing

variable [PixelCount π] {c : Styling τ}

mutual

/-- All nodes of the scene of a node are built. -/
theorem gives_sceneOfNode (h : 0 < c.frame.fps) (baseDir : Path) :
    ∀ (n : Node) (ancestors : List Identity) (parent : Option (Style τ π)),
      Gives c.probe (sceneOfNode c baseDir ancestors parent n) fun scene =>
        ∀ node : Scene τ π, node.Within scene → node.IsBuilt c.probe
  | ⟨tag, attributes, children, text⟩, ancestors, parent => by
      rw [sceneOfNode]
      refine Gives.bind (c.gives_style h _ ancestors parent _) ?_
      intro style hstyle
      split
      · next kind hk =>
          refine Gives.found (Scene.forall_within_leaf.2 ?_)
          obtain ⟨width, height, hfit⟩ := style.fitSource_eq
          have hr := hstyle.resolved
          rw [hfit]
          refine .leaf ⟨hr.object, hr.marginStart, hr.marginEnd, hr.paddingStart, hr.paddingEnd⟩ ?_
          intro hd
          obtain ⟨path, hs, hprobed⟩ := hstyle.media kind hk hd
          exact ⟨path, by rw [hs]; rfl, hprobed⟩
      · refine Gives.bind (gives_scenesOfNodes h baseDir children _ style) ?_
        intro items hitems
        refine Gives.found (Scene.forall_within_container.2 ⟨?_, hitems⟩)
        exact Scene.isBuilt_settle hstyle.resolved fun i hi => (hitems i hi i (.self i)).resolved

theorem gives_scenesOfNodes (h : 0 < c.frame.fps) (baseDir : Path) :
    ∀ (ns : List Node) (ancestors : List Identity) (parent : Style τ π),
      Gives c.probe (scenesOfNodes c baseDir ancestors parent ns) fun scenes =>
        ∀ scene ∈ scenes, ∀ node : Scene τ π, node.Within scene → node.IsBuilt c.probe
  | [], ancestors, parent => by
      rw [scenesOfNodes]
      exact Gives.pure (by simp)
  | n :: ns, ancestors, parent => by
      rw [scenesOfNodes]
      refine Gives.bind (gives_sceneOfNode h baseDir n ancestors (some parent)) ?_
      intro first hfirst
      refine Gives.bind (gives_scenesOfNodes h baseDir ns ancestors parent) ?_
      intro others hothers
      refine Gives.pure ?_
      intro scene hm
      rcases List.mem_cons.1 hm with rfl | hm
      · exact hfirst
      · exact hothers scene hm

end

end

namespace Document

variable [PixelCount π] {d : Document τ} {probe : Probe τ} {root : Scene τ π}

/-- The scene of a document is that of its root, whose files were probed one after the other. -/
theorem exists_run_of_scene (h : d.scene probe = .ok root) :
    ∃ cache, sceneOfNode ⟨d.sheet, d.frame, probe⟩ d.baseDir [] none d.root ProbeCache.empty =
      (.ok root, cache) :=
  ⟨_, Prod.ext h rfl⟩

/-- All nodes of the scene of a document are built. -/
theorem isBuilt_scene (h : 0 < d.frame.fps) (hs : d.scene probe = .ok root) :
    ∀ node : Scene τ π, node.Within root → node.IsBuilt probe := by
  obtain ⟨cache, hrun⟩ := exists_run_of_scene hs
  exact (gives_sceneOfNode h d.baseDir d.root [] none _ _ _ (ProbeCache.sound_empty probe) hrun).2

end Document

end Montage
