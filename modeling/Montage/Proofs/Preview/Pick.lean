import Montage.Proofs.Preview.Schedule

/-!
# What a preview shows

**Input.** The scene of a document, and an instant.

**Algorithm.** Induction on the path to a leaf: at every container on the way the instant lies inside
the object of the container, and the child on the path is shown if it covers the instant.

**Results.**
* `Document.pick_iff`: a leaf is shown at an instant if the instant lies inside its object and inside
  the objects of all containers above it, and what is shown of it is the time since it started.
-/

namespace Montage

variable {π : Type}

namespace Scene

/-- Where the containers above a child stand, and where it starts in them. -/
theorem starts_cons_iff {scene node : Scene ℚ π} {i : Nat} {path : List Nat} {s : ℚ} :
    scene.Starts (i :: path) node s ↔ ∃ tag style items item start t,
      scene = container tag style items ∧ StartsIn style items i item start ∧
        item.Starts path node t ∧ s = start + item.style.timePaddingStart.secondsOrZero + t := by
  constructor
  · rintro (_ | ⟨hi, h⟩)
    exact ⟨_, _, _, _, _, _, rfl, hi, h, rfl⟩
  · rintro ⟨tag, style, items, item, start, t, rfl, hi, h, rfl⟩
    exact .child hi h

theorem starts_nil_iff {scene node : Scene ℚ π} {s : ℚ} :
    scene.Starts [] node s ↔ node = scene ∧ s = 0 := by
  constructor
  · rintro ⟨⟩
    exact ⟨rfl, rfl⟩
  · rintro ⟨rfl, rfl⟩
    exact .self _

/-- An instant lies inside the objects of all containers above a path. -/
def SpannedAbove (scene : Scene ℚ π) (path : List Nat) (t : ℚ) : Prop :=
  ∀ above node s, above <+: path → above ≠ path → scene.Starts above node s →
    node.style.Spans (t - s)

theorem spannedAbove_nil (scene : Scene ℚ π) (t : ℚ) : scene.SpannedAbove [] t := by
  intro above node s hprefix hne
  exact absurd (List.prefix_nil.1 hprefix) hne

/-- It does so if it lies inside the container, and inside what is above the path in the child. -/
theorem spannedAbove_cons_iff {tag : Tag} {style : Style ℚ π} {items : List (Scene ℚ π)} {i : Nat}
    {item : Scene ℚ π} {start : ℚ} (hi : StartsIn style items i item start) {path : List Nat}
    {t : ℚ} :
    (container tag style items).SpannedAbove (i :: path) t ↔
      style.Spans t ∧
        item.SpannedAbove path (t - (start + item.style.timePaddingStart.secondsOrZero)) := by
  constructor
  · intro h
    constructor
    · have hself := h [] _ 0 List.nil_prefix (List.cons_ne_nil i path).symm (.self _)
      rwa [sub_zero] at hself
    · intro above node s hprefix hne hstarts
      have hchild := h (i :: above) node _ (List.cons_prefix_cons.2 ⟨rfl, hprefix⟩)
        (by simpa using hne) (.child hi hstarts)
      rwa [← sub_sub] at hchild
  · rintro ⟨hself, hchild⟩ above node s hprefix hne hstarts
    cases above with
    | nil =>
        obtain ⟨rfl, rfl⟩ := starts_nil_iff.1 hstarts
        rwa [sub_zero]
    | cons j above =>
        obtain ⟨rfl, hrest⟩ := List.cons_prefix_cons.1 hprefix
        obtain ⟨_, _, _, item', start', s', he, hi', hstarts', rfl⟩ := starts_cons_iff.1 hstarts
        cases he
        obtain ⟨rfl, rfl⟩ := hi.unique hi'
        rw [← sub_sub]
        exact hchild above node s' hrest (by simpa using hne) hstarts'

/-- The scene itself spans an instant, be it above the node or the node. -/
theorem SpannedAbove.spans {scene node : Scene ℚ π} {path : List Nat} {s t : ℚ}
    (h : scene.SpannedAbove path t) (hstarts : scene.Starts path node s)
    (hnode : node.style.Spans (t - s)) : scene.style.Spans t := by
  cases path with
  | nil =>
      obtain ⟨rfl, rfl⟩ := starts_nil_iff.1 hstarts
      rwa [sub_zero] at hnode
  | cons i path =>
      have hself := h [] scene 0 List.nil_prefix (List.cons_ne_nil i path).symm (.self scene)
      rwa [sub_zero] at hself

end Scene

/-- A container that can be seen is shown with the children that are shown in it. -/
theorem pickScene_container (tag : Tag) (style : Style ℚ π) (items : List (Scene ℚ π)) (t : ℚ) :
    pickScene (.container tag style items) t =
      if Scene.anyVideo items then
        some (.container tag style items (if style.covers t then pickItems style items t else []))
      else none := by
  rw [pickScene]
  rfl

section

variable {tag : Tag} {kind : MediaKind} {locator : Locator} {style : Style ℚ π} {t : ℚ}

/-- Where a container is shown, there is one that can be seen. -/
theorem container_of_pickScene {scene : Scene ℚ π} {siblings : List (Scene ℚ π)}
    {items : List (Nat × Pick ℚ π)}
    (h : pickScene scene t = some (.container tag style siblings items)) :
    scene = .container tag style siblings ∧
      items = if style.covers t then pickItems style siblings t else [] := by
  cases scene with
  | container =>
      rw [pickScene_container] at h
      obtain ⟨_, h⟩ := Option.ite_none_right_eq_some.1 h
      cases h
      exact ⟨rfl, rfl⟩
  | leaf =>
      rw [pickScene] at h
      obtain ⟨_, h⟩ := Option.ite_none_right_eq_some.1 h
      cases h

/-- Where a leaf is shown, there is one that can be seen. -/
theorem leaf_of_pickScene {scene : Scene ℚ π} {offset : Option ℚ}
    (h : pickScene scene t = some (.leaf tag kind locator style offset)) :
    scene = .leaf tag kind locator style ∧ kind.hasVideo = true ∧
      offset = if style.covers t then some t else none := by
  cases scene with
  | container =>
      rw [pickScene_container] at h
      obtain ⟨_, h⟩ := Option.ite_none_right_eq_some.1 h
      cases h
  | leaf =>
      rw [pickScene] at h
      obtain ⟨hv, h⟩ := Option.ite_none_right_eq_some.1 h
      cases h
      exact ⟨rfl, hv, rfl⟩

/-- A leaf is shown at an instant inside its object and inside the objects of all containers above
it. -/
theorem pickScene_shows_iff {scene : Scene ℚ π}
    (h : ∀ node : Scene ℚ π, node.Within scene → node.style.IsSettled) {path : List Nat} {o : ℚ} :
    (∃ p, pickScene scene t = some p ∧ p.Shows path (.leaf tag kind locator style) (some o)) ↔
      kind.hasVideo = true ∧ ∃ s, scene.Starts path (.leaf tag kind locator style) s ∧ o = t - s ∧
        style.Spans o ∧ scene.SpannedAbove path t := by
  induction path generalizing scene t with
  | nil =>
      constructor
      · rintro ⟨p, hp, hshows⟩
        cases hshows
        obtain ⟨rfl, hv, ho⟩ := leaf_of_pickScene hp
        obtain ⟨hcovers, ho⟩ := Option.ite_none_right_eq_some.1 ho.symm
        cases ho
        exact ⟨hv, 0, .self _, (sub_zero _).symm, (style.covers_iff _).1 hcovers,
          Scene.spannedAbove_nil _ _⟩
      · rintro ⟨hv, s, hstarts, rfl, hspans, _⟩
        obtain ⟨rfl, rfl⟩ := Scene.starts_nil_iff.1 hstarts
        rw [sub_zero] at hspans ⊢
        refine ⟨.leaf tag kind locator style (some t), ?_, .leaf⟩
        rw [pickScene, if_pos hv, if_pos ((style.covers_iff t).2 hspans)]
  | cons i path ih =>
      constructor
      · rintro ⟨p, hp, hshows⟩
        cases hshows with
        | item hi hshows =>
            obtain ⟨rfl, rfl⟩ := container_of_pickScene hp
            obtain ⟨hcovers, hi⟩ := List.mem_ite_nil_right.1 hi
            obtain ⟨item, start, hstarts, _, _, hpick⟩ :=
              (mem_pickItems fun i hi => h i (.item hi (.self i))).1 hi
            obtain ⟨hv, s, hs, ho, hspans, habove⟩ :=
              (ih fun node hn => h node (.item hstarts.mem hn)).1 ⟨_, hpick, hshows⟩
            refine ⟨hv, _, .child hstarts hs, ?_, hspans, ?_⟩
            · rw [ho, sub_sub]
            · exact (Scene.spannedAbove_cons_iff hstarts).2
                ⟨(Style.covers_iff _ _).1 hcovers, habove⟩
      · rintro ⟨hv, s, hstarts, ho, hspans, habove⟩
        obtain ⟨tag, above, items, item, start, s, rfl, hi, hs, rfl⟩ :=
          Scene.starts_cons_iff.1 hstarts
        obtain ⟨hself, habove⟩ := (Scene.spannedAbove_cons_iff hi).1 habove
        rw [← sub_sub] at ho
        have hitems : ∀ i ∈ items, i.style.IsSettled := fun i hi => h i (.item hi (.self i))
        obtain ⟨hle, houtlasts⟩ :=
          (hitems item hi.mem).outlasts_of_spans (habove.spans hs (ho ▸ hspans))
        obtain ⟨q, hpick, hshows⟩ := (ih fun node hn => h node (.item hi.mem hn)).2
          ⟨hv, s, hs, ho, hspans, habove⟩
        have hany : Scene.anyVideo items = true := hstarts.hasVideo hv
        refine ⟨_, by rw [pickScene_container, if_pos hany], .item ?_ hshows⟩
        rw [if_pos ((above.covers_iff t).2 hself)]
        exact (mem_pickItems hitems).2 ⟨item, start, hi, hle, houtlasts, hpick⟩

end

/-- A sequence shows one child at most. -/
theorem length_pickSequence_le_one (index : Nat) (begin pending : ℚ) (items : List (Scene ℚ π))
    (t : ℚ) : (pickSequence index begin pending items t).length ≤ 1 := by
  induction items generalizing index begin pending with
  | nil => simp [pickSequence]
  | cons item rest ih =>
      rw [pickSequence]
      split
      · simp
      · split
        · split <;> simp
        · split
          · exact ih _ _ _
          · simp

/-- So it is in every part of what is shown. -/
theorem length_le_one_of_pickScene {scene : Scene ℚ π}
    (h : ∀ node : Scene ℚ π, node.Within scene → node.style.IsSettled) {t : ℚ} {p : Pick ℚ π}
    (hp : pickScene scene t = some p) {tag : Tag} {style : Style ℚ π} {siblings : List (Scene ℚ π)}
    {items : List (Nat × Pick ℚ π)} (hpart : (Pick.container tag style siblings items).Within p)
    (ho : style.order = .sequence) : items.length ≤ 1 := by
  generalize he : Pick.container tag style siblings items = part at hpart
  induction hpart generalizing scene t with
  | self p =>
      subst he
      obtain ⟨rfl, rfl⟩ := container_of_pickScene hp
      split
      · rw [pickItems, ho]
        exact length_pickSequence_le_one _ _ _ _ _
      · exact Nat.zero_le 1
  | item hi _ ih =>
      obtain ⟨rfl, rfl⟩ := container_of_pickScene hp
      obtain ⟨_, hi⟩ := List.mem_ite_nil_right.1 hi
      obtain ⟨item, start, hstarts, _, _, hpick⟩ :=
        (mem_pickItems fun i hi => h i (.item hi (.self i))).1 hi
      exact ih (fun node hn => h node (.item hstarts.mem hn)) hpick he

namespace Document

variable [PixelCount π] {d : Document ℚ} {probe : Probe ℚ} {root : Scene ℚ π}

/-- The times of a built scene are settled. -/
theorem isSettled_scene (hfps : 0 < d.frame.fps) (hd : d.scene probe = .ok root)
    (hforward : ∀ node : Scene ℚ π, node.Within root → node.style.IsForward) (node : Scene ℚ π)
    (hn : node.Within root) : node.style.IsSettled :=
  have hresolved := (isBuilt_scene hfps hd node hn).resolved
  ⟨hresolved.isPaced (hforward node hn), hresolved.isTime_or_fit (hforward node hn)⟩

/-- A leaf of a document is shown at an instant if and only if it can be seen, and the instant lies
inside its object and inside the objects of all containers above it. What is shown of it is the time
since its object started. A sequence shows one child at most. -/
theorem pick_iff (hfps : 0 < d.frame.fps) (hd : d.scene probe = .ok root)
    (hforward : ∀ node : Scene ℚ π, node.Within root → node.style.IsForward) (t : ℚ) :
    (∀ path tag kind locator style o,
      (∃ p, root.pick t = some p ∧ p.Shows path (.leaf tag kind locator style) (some o)) ↔
        kind.hasVideo = true ∧ ∃ s, root.Starts path (.leaf tag kind locator style) s ∧
          o = t - s ∧ style.Spans o ∧ root.SpannedAbove path t) ∧
    ∀ p tag style siblings items, root.pick t = some p →
      (Pick.container tag style siblings items).Within p → style.order = .sequence →
        items.length ≤ 1 := by
  have hsettled := isSettled_scene hfps hd hforward
  constructor
  · intro path tag kind locator style o
    exact pickScene_shows_iff hsettled
  · intro p tag style siblings items hp hpart ho
    exact length_le_one_of_pickScene hsettled hp hpart ho

/-- A picture, and after a margin a clip whose first second is padding. -/
def slides : Document ℚ where
  baseDir := ⟨""⟩
  frame := ⟨⟨320, 180⟩, 25⟩
  sheet := .empty
  root :=
    ⟨.seq, [],
      [⟨.img, [("src", "a.png"), ("style", "object-length:2s;time-margin-end:1s")], [], none⟩,
        ⟨.vid, [("src", "b.mp4"), ("style", "time-padding-start:1s")], [], none⟩], none⟩

def slidesProbe : Probe ℚ := fun path =>
  if path.text = "a.png" then .ok ⟨none, some ⟨320, 180⟩, none⟩
  else .ok ⟨some 5, some ⟨320, 180⟩, none⟩

/-- Five seconds after the start the clip is shown, which started at four. -/
theorem slides_scene : ((slides.scene slidesProbe).toOption.map fun root : Scene ℚ Int =>
    (decide (∀ node : Scene ℚ Int, node.Within root → node.style.IsForward),
      match root.pick 5 with
      | some (.container _ _ _ [(1, .leaf _ _ _ _ (some offset))]) => some offset
      | _ => none)) = some (true, some 1) := by
  decide +kernel

theorem pick_iff_slides : ∃ (root leaf : Scene ℚ Int), slides.scene slidesProbe = .ok root ∧
    root.Starts [1] leaf 4 ∧ ∃ p, root.pick 5 = some p ∧ p.Shows [1] leaf (some 1) := by
  obtain ⟨root, hroot, hrun⟩ := exists_ok_of_map slides_scene
  obtain ⟨hforward, hshown⟩ := Prod.mk.inj hrun
  split at hshown
  · next tag kind locator style offset hpick =>
      cases hshown
      have hleaf : ∃ p, root.pick 5 = some p ∧
          p.Shows [1] (.leaf tag kind locator style) (some 1) :=
        ⟨_, hpick, .item List.mem_cons_self .leaf⟩
      have hiff := (pick_iff (by decide) hroot (of_decide_eq_true hforward) 5).1
      obtain ⟨_, s, hstarts, hs, _⟩ := (hiff [1] tag kind locator style 1).1 hleaf
      obtain rfl : s = 4 := by linarith
      exact ⟨root, _, hroot, hstarts, hleaf⟩
  · cases hshown

end Document
end Montage
