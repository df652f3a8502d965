import Montage.Proofs.Scene.Draft
import Montage.Proofs.Style.Recount

/-!
# Scenes in other counts

A scene is built alike in two kinds of counts.

**Input.** A passage from one kind of counts to another, and a document.

**Algorithm.** Nodes are styled alike. Where a style is filled in, sums and products pass, and so do
the greatest of some counts and a quotient by what is positive; nothing is divided by anything else.

**Results.**
* `Document.draft_recount`: a document has the same draft in either kind of counts.
* `Scene.finish_recount`: a draft is filled in to the same scene.
* `Document.scene_recount`: if the same calculations stop the program, a document has the same scene.
-/

namespace Montage

variable {τ π ρ : Type}

/-! ### Passing scenes on -/

namespace Scene

mutual

/-- The scene with its counts passed on. -/
def recount (f : π → ρ) : Scene τ π → Scene τ ρ
  | container tag style items => container tag (style.recount f) (recountAll f items)
  | leaf tag kind locator style => leaf tag kind locator (style.recount f)

/-- The scenes with their counts passed on. -/
def recountAll (f : π → ρ) : List (Scene τ π) → List (Scene τ ρ)
  | [] => []
  | s :: rest => s.recount f :: recountAll f rest

end

variable {f : π → ρ}

theorem recountAll_eq_map (items : List (Scene τ π)) :
    recountAll f items = items.map (recount f) := by
  induction items with
  | nil => rfl
  | cons s rest ih => rw [recountAll, List.map_cons, ih]

@[simp] theorem tag_recount (s : Scene τ π) : (s.recount f).tag = s.tag := by
  cases s <;> rfl

@[simp] theorem style_recount (s : Scene τ π) : (s.recount f).style = s.style.recount f := by
  cases s <;> rfl

mutual

@[simp] theorem hasVideo_recount : ∀ s : Scene τ π, (s.recount f).hasVideo = s.hasVideo
  | leaf tag kind locator style => rfl
  | container tag style items => by
      rw [recount, hasVideo, hasVideo, anyVideo_recountAll items]

@[simp] theorem anyVideo_recountAll : ∀ items : List (Scene τ π),
    anyVideo (recountAll f items) = anyVideo items
  | [] => rfl
  | s :: rest => by
      rw [recountAll, anyVideo, anyVideo, hasVideo_recount s, anyVideo_recountAll rest]

end

theorem visibleStyles_recountAll (items : List (Scene τ π)) :
    visibleStyles (recountAll f items) = (visibleStyles items).map (Style.recount f) := by
  have hsame : (hasVideo : Scene τ ρ → Bool) ∘ recount f = hasVideo :=
    funext fun s => hasVideo_recount s
  rw [recountAll_eq_map, visibleStyles, visibleStyles, List.filter_map, hsame, List.map_map,
    List.map_map]
  exact List.map_congr_left fun s _ => style_recount s

end Scene

/-! ### Open sides of leaves -/

namespace Style

variable {f : π → ρ}

/-- The style with its open sides natural. -/
def withNatural (s : Style τ π) (width height : π) : Style τ π :=
  let s := if s.width.isAuto then { s with width := .pixel width } else s
  if s.height.isAuto then { s with height := .pixel height } else s

theorem withNatural_recount (s : Style τ π) (f : π → ρ) (width height : π) :
    (s.recount f).withNatural (f width) (f height) = (s.withNatural width height).recount f := by
  have hw : (s.recount f).width.isAuto = s.width.isAuto := Length.isAuto_recount _
  have hh : (s.recount f).height.isAuto = s.height.isAuto := Length.isAuto_recount _
  unfold withNatural
  rw [hw]
  cases s.width.isAuto <;> cases hauto : s.height.isAuto <;>
    simp only [Bool.false_eq_true, if_true, if_false, hh, hauto] <;> rfl

variable [PixelCount π] [PixelCount ρ] (P : Passage f)
include P

theorem nearestQuotient_recount {den : π} (hpos : 0 < den) (num : π) :
    nearestQuotient (f num) (f den) = f (nearestQuotient num den) := by
  rw [nearestQuotient, nearestQuotient, P.quotient _ _ hpos, P.add, P.quotient _ _ P.two_pos,
    P.ofInt]

/-- A leaf is filled in alike. -/
theorem fitSource_recount (s : Style τ π) : (s.recount f).fitSource = s.fitSource.recount f := by
  have hpos : ∀ {n : π}, 0 < f n ↔ 0 < n := by
    intro n
    rw [← P.zero, P.lt_iff]
  have hsource : (s.recount f).source.width = s.source.width.map f ∧
      (s.recount f).source.height = s.source.height.map f := ⟨rfl, rfl⟩
  have hsides : (s.recount f).width.pixels? = s.width.pixels?.map f ∧
      (s.recount f).height.pixels? = s.height.pixels?.map f :=
    ⟨Length.pixels?_recount _, Length.pixels?_recount _⟩
  simp only [fitSource, hsource, hsides]
  cases s.source.width with
  | none => rfl
  | some width =>
      cases s.source.height with
      | none => rfl
      | some height =>
          have hnatural := s.withNatural_recount f width height
          cases s.width.pixels? with
          | some w =>
              cases s.height.pixels? with
              | some h => rfl
              | none =>
                  simp only [Option.map_some, Option.map_none, hpos]
                  split
                  · next hlt =>
                      rw [← P.mul, nearestQuotient_recount P hlt]
                      rfl
                  · exact hnatural
          | none =>
              cases s.height.pixels? with
              | some h =>
                  simp only [Option.map_some, Option.map_none, hpos]
                  split
                  · next hlt =>
                      rw [← P.mul, nearestQuotient_recount P hlt]
                      rfl
                  · exact hnatural
              | none => exact hnatural

end Style

/-! ### Lengths of containers -/

theorem sequenceFrom_recount [Timescale τ] (f : π → ρ) (children : List (Style τ π))
    (total pending : τ) :
    sequenceFrom total pending (children.map (Style.recount f)) =
      sequenceFrom total pending children := by
  induction children generalizing total pending with
  | nil => rfl
  | cons s rest ih =>
      rw [List.map_cons, sequenceFrom, sequenceFrom, Style.recount_objectLength]
      cases s.objectLength.seconds? with
      | none => rfl
      | some length => exact ih _ _

theorem Style.settleLength_recount [Timescale τ] (s : Style τ π) (f : π → ρ)
    (children : List (Style τ π)) :
    (s.recount f).settleLength (children.map (recount f)) =
      (s.settleLength children).recount f := by
  have hsequence : sequenceLength (children.map (recount f)) = sequenceLength children := by
    rw [sequenceLength, sequenceLength, sequenceFrom_recount, List.isEmpty_map]
  have hparallel : parallelLength (children.map (recount f)) = parallelLength children := by
    rw [parallelLength, parallelLength, List.all_map, List.map_map]
    rfl
  simp only [settleLength, hsequence, hparallel]
  change (if s.objectLength.isFit then _ else _) = _
  split <;> rfl

/-! ### Open sides of containers -/

section

variable [PixelCount π] [PixelCount ρ] {f : π → ρ} (P : Passage f)
include P

theorem paddedExtent_recount (axis : Axis) (s : Style τ π) :
    paddedExtent axis (s.recount f) = f (paddedExtent axis s) := by
  simp only [paddedExtent, Style.extent_recount, Style.recount_padding, Edges.along_recount P,
    Length.pixelsOr_recount P, Prod.map, P.add]

theorem footprintExtent_recount (axis : Axis) (s : Style τ π) :
    footprintExtent axis (s.recount f) = f (footprintExtent axis s) := by
  simp only [footprintExtent, Style.recount_margin, Edges.along_recount P, paddedExtent_recount P,
    Prod.map, P.add]

/-- Children stand side by side alike. -/
theorem catenateFrom_recount (axis : Axis) (reverse : Bool) (children : List (Style τ π))
    (total pending : π) :
    catenateFrom axis reverse (f total) (f pending) (children.map (Style.recount f)) =
      f (catenateFrom axis reverse total pending children) := by
  induction children generalizing total pending with
  | nil => exact (P.add _ _).symm
  | cons s rest ih =>
      simp only [List.map_cons, catenateFrom, Style.recount_margin, Edges.along_recount P, Prod.map,
        paddedExtent_recount P, ← P.max, ← P.add]
      exact ih _ _

theorem catenate_recount (axis : Axis) (reverse : Bool) (children : List (Style τ π)) :
    catenate axis reverse (children.map (Style.recount f)) =
      (catenate axis reverse children).recount f := by
  have h := catenateFrom_recount P axis reverse children 0 0
  rw [P.zero] at h
  exact congrArg Length.pixel h

theorem foldl_max_recount (ns : List π) (n : π) :
    (ns.map f).foldl max (f n) = f (ns.foldl max n) := by
  induction ns generalizing n with
  | nil => rfl
  | cons m rest ih =>
      rw [List.map_cons, List.foldl_cons, List.foldl_cons, ← P.max]
      exact ih _

theorem greatest_recount (ns : List π) : greatest (ns.map f) = f (greatest ns) := by
  cases ns with
  | nil => exact P.zero.symm
  | cons n rest => exact foldl_max_recount P rest n

/-- Children are piled up alike. -/
theorem pile_recount (axis : Axis) (children : List (Style τ π)) :
    pile axis (children.map (Style.recount f)) = (pile axis children).recount f := by
  have hmap : (children.map (Style.recount f)).map (footprintExtent axis) =
      (children.map (footprintExtent axis)).map f := by
    rw [List.map_map, List.map_map]
    exact List.map_congr_left fun s _ => footprintExtent_recount P axis s
  rw [pile, pile, hmap, greatest_recount P]
  rfl

namespace Style

theorem settleExtent_recount (s : Style τ π) (visible : List (Style τ π)) (axis : Axis) :
    (s.recount f).settleExtent (visible.map (recount f)) axis =
      (s.settleExtent visible axis).recount f := by
  have hset : ∀ l : Length π,
      (s.recount f).setExtent axis (l.recount f) = (s.setExtent axis l).recount f := by
    intro l
    cases axis <;> rfl
  have hflow : (s.recount f).flowAxis? = s.flowAxis? := rfl
  have hdirection : (s.recount f).direction = s.direction := rfl
  simp only [settleExtent, extent_recount, Length.isAuto_recount, hflow, hdirection,
    catenate_recount P, pile_recount P, ← apply_ite (Length.recount f), hset]
  split <;> rfl

/-- A container is filled in alike. -/
theorem settle_recount [Timescale τ] (s : Style τ π) (children visible : List (Style τ π)) :
    (s.recount f).settle (children.map (recount f)) (visible.map (recount f)) =
      (s.settle children visible).recount f := by
  simp only [settle, settleLength_recount, List.isEmpty_map, settleExtent_recount P]
  split <;> rfl

end Style

end

/-! ### Scenes -/

section

variable {f : π → ρ}

theorem Style.counts_recount (s : Style τ π) : (s.recount f).counts = s.counts.map f := by
  have hpixels : ∀ ls : List (Length π),
      (ls.map (Length.recount f)).filterMap Length.pixels? =
        (ls.filterMap Length.pixels?).map f := by
    intro ls
    rw [List.filterMap_map, List.map_filterMap]
    exact congrArg (List.filterMap · ls) (funext fun l => Length.pixels?_recount l)
  have hfont : ((s.fontSize.map (Length.recount f)).bind Length.pixels?) =
      (s.fontSize.bind Length.pixels?).map f := by
    cases s.fontSize with
    | none => rfl
    | some l => exact Length.pixels?_recount l
  simp only [counts, recount, SourceFacts.recount, Edges.toList_recount, hfont,
    Option.toList_map, List.map_append, ← hpixels, List.map_cons, List.map_nil]

namespace Scene

mutual

theorem counts_recount : ∀ s : Scene τ π, (s.recount f).counts = s.counts.map f
  | leaf tag kind locator style => style.counts_recount
  | container tag style items => by
      rw [recount, counts, counts, countsAll_recountAll items, style.counts_recount,
        List.map_append]

theorem countsAll_recountAll : ∀ items : List (Scene τ π),
    countsAll (recountAll f items) = (countsAll items).map f
  | [] => rfl
  | s :: rest => by
      rw [recountAll, countsAll, countsAll, counts_recount s, countsAll_recountAll rest,
        List.map_append]

end

variable [Timescale τ] [PixelCount π] [PixelCount ρ]

theorem settle_recount (P : Passage f) : ∀ s : Scene τ π, (s.recount f).settle = s.settle.recount f
  | leaf tag kind locator style => rfl
  | container tag style items => by
      have hstyles : (recountAll f items).map Scene.style =
          (items.map Scene.style).map (Style.recount f) := by
        rw [recountAll_eq_map, List.map_map, List.map_map]
        exact List.map_congr_left fun s _ => style_recount s
      rw [recount, settle, settle, hstyles, visibleStyles_recountAll, Style.settle_recount P]
      rfl

mutual

/-- A draft is filled in alike. -/
theorem finish_recount (P : Passage f) : ∀ draft : Scene τ π,
    (draft.recount f).finish = draft.finish.recount f
  | leaf tag kind locator style => by
      rw [recount, finish, finish, recount, Style.fitSource_recount P]
  | container tag style items => by
      rw [recount, finish, finish, finishAll_recount P items]
      exact settle_recount P (container tag style (finishAll items))

theorem finishAll_recount (P : Passage f) : ∀ drafts : List (Scene τ π),
    finishAll (recountAll f drafts) = recountAll f (finishAll drafts)
  | [] => rfl
  | s :: rest => by
      rw [recountAll, finishAll, finishAll, recountAll, finish_recount P s,
        finishAll_recount P rest]

end

omit [Timescale τ] in
/-- A node is found alike if the same calculations stop the program. -/
theorem found_recount (K : KeepsMishaps f) (s : Scene τ π) :
    ((s.recount f).found : Probing τ (Scene τ ρ)) = recount f <$> s.found := by
  have hmishap : (s.recount f).style.mishap? = s.style.mishap? := by
    rw [style_recount, Style.mishap?, Style.mishap?, Style.counts_recount,
      PixelCount.firstMishap?, PixelCount.firstMishap?, List.findSome?_map]
    exact congrArg (List.findSome? · s.style.counts) (funext K)
  unfold found
  rw [hmishap]
  cases s.style.mishap? <;> rfl

end Scene

/-! ### Documents -/

variable [Timescale τ] [PixelCount π] [PixelCount ρ]

mutual

/-- A node has the same draft in either kind of counts. -/
theorem draftOfNode_recount (P : Passage f) (c : Styling τ) (baseDir : Path) :
    ∀ (n : Node) (ancestors : List Identity) (parent : Option (Style τ π)),
      draftOfNode c baseDir ancestors (parent.map (Style.recount f)) n =
        Scene.recount f <$> draftOfNode c baseDir ancestors parent n
  | ⟨tag, attributes, children, text⟩, ancestors, parent => by
      rw [draftOfNode, draftOfNode]
      simp only [Styling.style_recount P, bind_map_left, map_bind]
      congr
      funext style
      cases tag.kind? with
      | some kind =>
          simp only [map_pure]
          rfl
      | none =>
          simp only [draftsOfNodes_recount P c baseDir children, bind_map_left, map_bind, map_pure]
          rfl

theorem draftsOfNodes_recount (P : Passage f) (c : Styling τ) (baseDir : Path) :
    ∀ (ns : List Node) (ancestors : List Identity) (parent : Style τ π),
      draftsOfNodes c baseDir ancestors (parent.recount f) ns =
        Scene.recountAll f <$> draftsOfNodes c baseDir ancestors parent ns
  | [], ancestors, parent => by
      rw [draftsOfNodes, draftsOfNodes, map_pure]
      rfl
  | n :: ns, ancestors, parent => by
      have hfirst := draftOfNode_recount P c baseDir n ancestors (some parent)
      rw [Option.map_some] at hfirst
      rw [draftsOfNodes, draftsOfNodes, hfirst, draftsOfNodes_recount P c baseDir ns]
      simp only [bind_map_left, map_bind, map_pure]
      rfl

end

mutual

/-- A node has the same scene in either kind of counts if the same calculations stop the program. -/
theorem sceneOfNode_recount (P : Passage f) (K : KeepsMishaps f) (c : Styling τ) (baseDir : Path) :
    ∀ (n : Node) (ancestors : List Identity) (parent : Option (Style τ π)),
      sceneOfNode c baseDir ancestors (parent.map (Style.recount f)) n =
        Scene.recount f <$> sceneOfNode c baseDir ancestors parent n
  | ⟨tag, attributes, children, text⟩, ancestors, parent => by
      rw [sceneOfNode, sceneOfNode]
      simp only [Styling.style_recount P, bind_map_left, map_bind]
      congr
      funext style
      cases tag.kind? with
      | some kind =>
          simp only [← Scene.found_recount K, Scene.recount, Style.fitSource_recount P]
      | none =>
          simp only [scenesOfNodes_recount P K c baseDir children, bind_map_left, map_bind,
            ← Scene.found_recount K, ← Scene.settle_recount P]
          rfl

theorem scenesOfNodes_recount (P : Passage f) (K : KeepsMishaps f) (c : Styling τ) (baseDir : Path) :
    ∀ (ns : List Node) (ancestors : List Identity) (parent : Style τ π),
      scenesOfNodes c baseDir ancestors (parent.recount f) ns =
        Scene.recountAll f <$> scenesOfNodes c baseDir ancestors parent ns
  | [], ancestors, parent => by
      rw [scenesOfNodes, scenesOfNodes, map_pure]
      rfl
  | n :: ns, ancestors, parent => by
      have hfirst := sceneOfNode_recount P K c baseDir n ancestors (some parent)
      rw [Option.map_some] at hfirst
      rw [scenesOfNodes, scenesOfNodes, hfirst, scenesOfNodes_recount P K c baseDir ns]
      simp only [bind_map_left, map_bind, map_pure]
      rfl

end

omit [Timescale τ] in
/-- What is made of the answer of a computation is made of its answer in a run. -/
theorem Probing.fst_map {α β : Type} (g : α → β) (c : Probing τ α) (cache : ProbeCache τ) :
    ((g <$> c) cache).1 = (c cache).1.map g := by
  change ((ExceptT.map g c) cache).1 = _
  simp only [ExceptT.map, ExceptT.mk, Bind.bind, StateT.bind]
  rcases c cache with ⟨e | a, cache'⟩ <;> rfl

namespace Document

/-- A document has the same draft in either kind of counts. -/
theorem draft_recount (P : Passage f) (d : Document τ) (probe : Probe τ) :
    (d.draft probe : Except Failure (Scene τ ρ)) = (d.draft probe).map (Scene.recount f) := by
  have hroot := draftOfNode_recount P (d.styling probe) d.baseDir d.root [] none
  rw [Option.map_none] at hroot
  unfold draft
  exact (congrArg (fun c => (c ProbeCache.empty).1) hroot).trans (Probing.fst_map _ _ _)

theorem draft_eq_ok (P : Passage f) {d : Document τ} {probe : Probe τ} {draft : Scene τ π}
    (h : d.draft probe = .ok draft) :
    (d.draft probe : Except Failure (Scene τ ρ)) = .ok (draft.recount f) := by
  rw [draft_recount P, h]
  rfl

/-- A document has the same scene in either kind of counts if the same calculations stop the
program. -/
theorem scene_recount (P : Passage f) (K : KeepsMishaps f) (d : Document τ) (probe : Probe τ) :
    (d.scene probe : Except Failure (Scene τ ρ)) = (d.scene probe).map (Scene.recount f) := by
  have hroot := sceneOfNode_recount P K (d.styling probe) d.baseDir d.root [] none
  rw [Option.map_none] at hroot
  unfold scene
  exact (congrArg (fun c => (c ProbeCache.empty).1) hroot).trans (Probing.fst_map _ _ _)

end Document

end
end Montage
