import Montage.Proofs.Compile.Books
import Montage.Proofs.Scene.Normal

/-!
# The locality of building

A change inside one subtree of a document does not reach the nodes beside it, and of the nodes above
it only what their children fill in.

**Input.** A document, a position in its tree, another subtree for that position, and a probe that
tells the same of a file however its name is written.

**Algorithm.** Both documents are built side by side. What is remembered of files may differ between
the two runs, but what a node is told does not: it is what the probe tells. So the drafts differ at
the position only, and each node of a scene is filled in from its own part of the draft.

**Results.**
* `Probing.Alike.bind`: two runs are compared step by step.
* `Document.scene_put`: nodes beside the position are the same in both scenes, and nodes above it
  have the same style but for lengths and sides that were open.
-/

namespace Montage

variable {τ π : Type}

/-- A probe tells the same of a file, however its name is written. -/
def Probe.OfFiles (probe : Probe τ) : Prop :=
  ∀ p q : Path, p.same q = true → probe p = probe q

/-- The tree with another subtree at a position. -/
def Node.put : Node → List Nat → Node → Node
  | _, [], new => new
  | ⟨tag, attributes, children, text⟩, i :: path, new =>
      ⟨tag, attributes, children.modify i fun child => child.put path new, text⟩

/-- The document with another subtree at a position. -/
def Document.put (d : Document τ) (path : List Nat) (new : Node) : Document τ :=
  { d with root := d.root.put path new }

namespace Scene

/-- The node at a position. -/
def at? : Scene τ π → List Nat → Option (Scene τ π)
  | scene, [] => some scene
  | scene, i :: path => scene.items[i]?.bind fun item => item.at? path

end Scene

/-! ### Lists that differ at one place -/

/-- Two lists have the same entries but at one place, where the entries are related. -/
structure ChangedAt {α : Type} (R : α → α → Prop) (i : Nat) (l l' : List α) : Prop where
  others : ∀ j, j ≠ i → l[j]? = l'[j]?
  there : Option.Rel R l[i]? l'[i]?

namespace ChangedAt

variable {α : Type} {R : α → α → Prop} {i : Nat} {l l' : List α}

theorem nil (R : α → α → Prop) (i : Nat) : ChangedAt R i [] [] :=
  ⟨fun _ _ => rfl, .none⟩

theorem head {a b : α} (h : R a b) (l : List α) : ChangedAt R 0 (a :: l) (b :: l) := by
  refine ⟨?_, .some h⟩
  intro j hj
  cases j with
  | zero => exact absurd rfl hj
  | succ j => rfl

theorem tail (a : α) (h : ChangedAt R i l l') : ChangedAt R (i + 1) (a :: l) (a :: l') := by
  refine ⟨?_, h.there⟩
  intro j hj
  cases j with
  | zero => rfl
  | succ j => exact h.others j (by omega)

/-- What is found at a place is the same if it is where the lists agree, or if it does not tell related
entries apart. -/
theorem bind_eq {β : Type} {f : α → Option β} (h : ChangedAt R i l l') {j : Nat}
    (hf : j = i → ∀ a b, R a b → f a = f b) : l[j]?.bind f = l'[j]?.bind f := by
  by_cases hj : j = i
  · have hthere := h.there
    rw [← hj] at hthere
    generalize l[j]? = x at hthere
    generalize l'[j]? = y at hthere
    cases hthere with
    | some hab => exact hf hj _ _ hab
    | none => rfl
  · rw [h.others j hj]

end ChangedAt

/-! ### Scenes that differ at a position -/

namespace Scene

/-- Two scenes are the same but for what stands at a position. -/
def DiffersAt : List Nat → Scene τ π → Scene τ π → Prop
  | [], _, _ => True
  | i :: path, a, b =>
      a = b ∨ ∃ tag style items items', a = container tag style items ∧
        b = container tag style items' ∧ ChangedAt (DiffersAt path) i items items'

/-- Beside the position everything is the same. -/
theorem DiffersAt.at?_eq {p : List Nat} {a b : Scene τ π} (h : DiffersAt p a b) {q : List Nat}
    (hq : ¬ q <+: p) (hp : ¬ p <+: q) : a.at? q = b.at? q := by
  induction p generalizing a b q with
  | nil => exact absurd List.nil_prefix hp
  | cons i path ih =>
      rcases h with rfl | ⟨tag, style, items, items', rfl, rfl, h⟩
      · rfl
      cases q with
      | nil => exact absurd List.nil_prefix hq
      | cons j q =>
          rw [List.cons_prefix_cons] at hq hp
          refine h.bind_eq fun hj x y hxy => ih hxy ?_ ?_
          · exact fun hpre => hq ⟨hj, hpre⟩
          · exact fun hpre => hp ⟨hj.symm, hpre⟩

/-- Above the position nodes have the same element and the same style. -/
theorem DiffersAt.above {p : List Nat} {a b : Scene τ π} (h : DiffersAt p a b) {q : List Nat}
    (hq : q <+: p) (hne : q ≠ p) :
    Option.Rel (fun x y : Scene τ π => x.tag = y.tag ∧ x.style = y.style) (a.at? q) (b.at? q) := by
  have hself : ∀ x : Option (Scene τ π),
      Option.Rel (fun x y : Scene τ π => x.tag = y.tag ∧ x.style = y.style) x x := by
    rintro (_ | x)
    · exact .none
    · exact .some ⟨rfl, rfl⟩
  induction p generalizing a b q with
  | nil => exact absurd (List.prefix_nil.1 hq) hne
  | cons i path ih =>
      rcases h with rfl | ⟨tag, style, items, items', rfl, rfl, h⟩
      · exact hself _
      cases q with
      | nil => exact .some ⟨rfl, rfl⟩
      | cons j q =>
          obtain ⟨rfl, hpre⟩ := List.cons_prefix_cons.1 hq
          have hne' : q ≠ path := fun he => hne (he ▸ rfl)
          have hthere := h.there
          change Option.Rel _ (items[j]?.bind fun item => item.at? q)
            (items'[j]?.bind fun item => item.at? q)
          generalize items[j]? = x at hthere
          generalize items'[j]? = y at hthere
          cases hthere with
          | some hxy => exact ih hxy hpre hne'
          | none => exact .none

end Scene

/-! ### Two runs side by side -/

namespace Probing

variable {α β : Type} {probe : Probe τ}

/-- Where two computations succeed they keep what is remembered sound, and what they give is related,
whatever was remembered before each of them. -/
def Alike (probe : Probe τ) (c c' : Probing τ α) (related : α → α → Prop) : Prop :=
  ∀ cache cache' a a' out out', cache.Sound probe → cache'.Sound probe →
    c cache = (.ok a, out) → c' cache' = (.ok a', out') →
      out.Sound probe ∧ out'.Sound probe ∧ related a a'

namespace Alike

variable {c c' : Probing τ α} {related : α → α → Prop}

theorem pure {a a' : α} (h : related a a') :
    Alike probe (Pure.pure a) (Pure.pure a') related := by
  intro cache cache' b b' out out' hs hs' hb hb'
  cases hb
  cases hb'
  exact ⟨hs, hs', h⟩

theorem throw (f f' : Failure) :
    Alike probe (MonadExcept.throw f : Probing τ α) (MonadExcept.throw f') related := by
  intro cache cache' b b' out out' _ _ hb _
  cases hb

/-- Related results are handed on to computations that are compared in turn. -/
theorem bind {f f' : α → Probing τ β} {related' : β → β → Prop} (h : Alike probe c c' related)
    (hf : ∀ a a', related a a' → Alike probe (f a) (f' a') related') :
    Alike probe (c >>= f) (c' >>= f') related' := by
  intro cache cache' b b' out out' hs hs' hb hb'
  obtain ⟨a, mid, ha, hb⟩ := bind_eq_ok hb
  obtain ⟨a', mid', ha', hb'⟩ := bind_eq_ok hb'
  obtain ⟨hm, hm', hrel⟩ := h cache cache' a a' mid mid' hs hs' ha ha'
  exact hf a a' hrel mid mid' b b' out out' hm hm' hb hb'

/-- The first steps give the same. -/
theorem bind_eq {f f' : α → Probing τ β} {related' : β → β → Prop} (h : Alike probe c c' Eq)
    (hf : ∀ a, Alike probe (f a) (f' a) related') :
    Alike probe (c >>= f) (c' >>= f') related' := by
  refine h.bind ?_
  rintro a _ rfl
  exact hf a

/-- Computations that are each compared with themselves need not give the same. -/
theorem of_self (h : Alike probe c c Eq) (h' : Alike probe c' c' Eq) :
    Alike probe c c' fun _ _ => True := by
  intro cache cache' a a' out out' hs hs' ha ha'
  exact ⟨(h cache cache a a out out hs hs ha ha).1, (h' cache' cache' a' a' out' out' hs' hs' ha' ha').1,
    trivial⟩

end Alike

/-- Whatever is remembered, what is known about a file is what the probe tells. -/
theorem alike_info (hprobe : probe.OfFiles) (path : Path) :
    Alike probe (Probing.info probe path) (Probing.info probe path) Eq := by
  intro cache cache' info info' out out' hs hs' hi hi'
  obtain ⟨ho, p, hp, hinfo⟩ := gives_info path cache info out hs hi
  obtain ⟨ho', q, hq, hinfo'⟩ := gives_info path cache' info' out' hs' hi'
  rw [hprobe p path hp] at hinfo
  rw [hprobe q path hq, hinfo] at hinfo'
  exact ⟨ho, ho', Except.ok.inj hinfo'⟩

end Probing

open Probing

section

variable [Timescale τ] [PixelCount π] {c : Styling τ}

namespace Styling

omit [Timescale τ] in
theorem alike_facts (hprobe : c.probe.OfFiles) (node : Node) (source : Option Path) :
    Alike c.probe (c.facts node source : Probing τ (SourceFacts τ π)) (c.facts node source) Eq := by
  unfold facts
  split
  · exact .pure rfl
  · exact .pure rfl
  · split
    · exact .throw _ _
    · refine (alike_info hprobe _).bind_eq fun info => ?_
      split
      · exact .pure rfl
      · exact .throw _ _

theorem alike_style (hprobe : c.probe.OfFiles) (node : Node) (ancestors : List Identity)
    (parent : Option (Style τ π)) (source : Option Path) :
    Alike c.probe (c.style node ancestors parent source) (c.style node ancestors parent source) Eq :=
  (alike_facts hprobe node source).bind_eq fun _ => .pure rfl

end Styling

mutual

theorem alike_draftOfNode (hprobe : c.probe.OfFiles) (baseDir : Path) :
    ∀ (n : Node) (ancestors : List Identity) (parent : Option (Style τ π)),
      Alike c.probe (draftOfNode c baseDir ancestors parent n)
        (draftOfNode c baseDir ancestors parent n) Eq
  | ⟨tag, attributes, children, text⟩, ancestors, parent => by
      rw [draftOfNode]
      refine (Styling.alike_style hprobe _ ancestors parent _).bind_eq fun style => ?_
      split
      · exact .pure rfl
      · exact (alike_draftsOfNodes hprobe baseDir children _ style).bind_eq fun _ => .pure rfl

theorem alike_draftsOfNodes (hprobe : c.probe.OfFiles) (baseDir : Path) :
    ∀ (ns : List Node) (ancestors : List Identity) (parent : Style τ π),
      Alike c.probe (draftsOfNodes c baseDir ancestors parent ns)
        (draftsOfNodes c baseDir ancestors parent ns) Eq
  | [], ancestors, parent => by
      rw [draftsOfNodes]
      exact .pure rfl
  | n :: ns, ancestors, parent => by
      rw [draftsOfNodes]
      refine (alike_draftOfNode hprobe baseDir n ancestors _).bind_eq fun first => ?_
      exact (alike_draftsOfNodes hprobe baseDir ns ancestors parent).bind_eq fun _ => .pure rfl

end

/-- Children of which one has another subtree are drafted alike. -/
theorem alike_modify (hprobe : c.probe.OfFiles) (baseDir : Path) {path : List Nat} {new : Node}
    (h : ∀ (n : Node) (ancestors : List Identity) (parent : Option (Style τ π)),
      Alike c.probe (draftOfNode c baseDir ancestors parent n)
        (draftOfNode c baseDir ancestors parent (n.put path new)) (Scene.DiffersAt path))
    (ancestors : List Identity) (parent : Style τ π) (ns : List Node) (i : Nat) :
    Alike c.probe (draftsOfNodes c baseDir ancestors parent ns)
      (draftsOfNodes c baseDir ancestors parent (ns.modify i fun n => n.put path new))
      (ChangedAt (Scene.DiffersAt path) i) := by
  induction ns generalizing i with
  | nil =>
      rw [List.modify_nil, draftsOfNodes]
      exact .pure (.nil _ i)
  | cons n ns ih =>
      cases i with
      | zero =>
          rw [List.modify_zero_cons, draftsOfNodes, draftsOfNodes]
          refine (h n ancestors (some parent)).bind fun a b hab => ?_
          refine (alike_draftsOfNodes hprobe baseDir ns ancestors parent).bind_eq fun others => ?_
          exact .pure (.head hab others)
      | succ i =>
          rw [List.modify_succ_cons, draftsOfNodes, draftsOfNodes]
          refine (alike_draftOfNode hprobe baseDir n ancestors _).bind_eq fun first => ?_
          refine (ih i).bind fun others others' hrest => ?_
          exact .pure (hrest.tail first)

/-- A node that has another subtree somewhere is drafted alike: its own style does not depend on what
is below it. -/
theorem alike_put (hprobe : c.probe.OfFiles) (baseDir : Path) (path : List Nat) (new n : Node)
    (ancestors : List Identity) (parent : Option (Style τ π)) :
    Alike c.probe (draftOfNode c baseDir ancestors parent n)
      (draftOfNode c baseDir ancestors parent (n.put path new)) (Scene.DiffersAt path) := by
  induction path generalizing n ancestors parent with
  | nil =>
      exact .of_self (alike_draftOfNode hprobe baseDir n ancestors parent)
        (alike_draftOfNode hprobe baseDir new ancestors parent)
  | cons i path ih =>
      obtain ⟨tag, attributes, children, text⟩ := n
      rw [Node.put, draftOfNode, draftOfNode]
      refine (Styling.alike_style hprobe _ ancestors parent _).bind_eq fun style => ?_
      split
      · exact .pure (Or.inl rfl)
      · refine (alike_modify hprobe baseDir ih _ style children i).bind fun items items' h => ?_
        exact .pure (Or.inr ⟨tag, style, items, items', rfl, rfl, h⟩)

/-! ### What differs in the scenes -/

namespace Scene

/-- The nodes of a scene are filled in where they stand in the draft. -/
theorem at?_finish (draft : Scene τ π) (q : List Nat) :
    draft.finish.at? q = (draft.at? q).map finish := by
  induction q generalizing draft with
  | nil => rfl
  | cons j q ih =>
      cases draft with
      | leaf tag kind locator style => rfl
      | container tag style items =>
          have hitems : (container tag style items).finish.items = items.map finish := by
            rw [finish, settle, finishAll_eq_map]
            rfl
          simp only [at?, hitems, List.getElem?_map, Option.bind_map, Option.map_bind,
            Function.comp_def, ih]
          rfl

theorem tag_finish (draft : Scene τ π) : draft.finish.tag = draft.tag := by
  cases draft <;> rfl

end Scene

/-- Two styles are the same but for the length and the sides, and these too where they are concrete in
the style from which both were filled in. -/
structure Style.SameOver (r s s' : Style τ π) : Prop where
  rest : s' = { s with objectLength := s'.objectLength, width := s'.width, height := s'.height }
  length : r.objectLength.IsKnown → s.objectLength = s'.objectLength
  width : r.width.IsConcrete → s.width = s'.width
  height : r.height.IsConcrete → s.height = s'.height

namespace Scene

/-- Only the length and the sides of a style are filled in. -/
theorem finish_style_eq (part : Scene τ π) :
    part.finish.style = { part.style with
      objectLength := part.finish.style.objectLength
      width := part.finish.style.width
      height := part.finish.style.height } := by
  cases part with
  | leaf tag kind locator style =>
      obtain ⟨width, height, h⟩ := style.fitSource_eq
      simp only [finish, Scene.style, h]
  | container tag style items =>
      obtain ⟨width, height, h⟩ := style.settle_eq ((finishAll items).map Scene.style)
        (visibleStyles (finishAll items))
      simp only [finish, settle, Scene.style, h]
      unfold Style.settleLength
      split <;> rfl

/-- Two nodes that are filled in from the same style. -/
theorem sameOver_finish {part part' : Scene τ π} (h : part.style = part'.style) :
    Style.SameOver part.style part.finish.style part'.finish.style := by
  have hkeeps := part.keeps_finish
  have hkeeps' := part'.keeps_finish
  rw [← h] at hkeeps'
  refine ⟨?_, fun hr => (hkeeps.length hr).trans (hkeeps'.length hr).symm,
    fun hr => (hkeeps.width hr).trans (hkeeps'.width hr).symm,
    fun hr => (hkeeps.height hr).trans (hkeeps'.height hr).symm⟩
  rw [part.finish_style_eq, part'.finish_style_eq, h]

end Scene

namespace Document

variable {d : Document τ} {probe : Probe τ}

/-- The drafts of a document and of one with another subtree differ at its position only. -/
theorem differsAt_draft (hprobe : probe.OfFiles) {p : List Nat} {new : Node}
    {draft draft' : Scene τ π} (h : d.draft probe = .ok draft)
    (h' : (d.put p new).draft probe = .ok draft') : draft.DiffersAt p draft' := by
  have halike := alike_put (c := d.styling probe) (π := π) hprobe d.baseDir p new d.root [] none
  have hempty := ProbeCache.sound_empty probe
  exact (halike _ _ _ _ _ _ hempty hempty (Prod.ext h rfl) (Prod.ext h' rfl)).2.2

/-- Where a document and one with another subtree at a position both build, every node beside the
position is built the same. Every node above it has the same style, but for the length and the sides
that were open when the style was resolved. -/
theorem scene_put (hprobe : probe.OfFiles) {p : List Nat} {new : Node} {root root' : Scene τ π}
    (h : d.scene probe = .ok root) (h' : (d.put p new).scene probe = .ok root') :
    (∀ q, ¬ q <+: p → ¬ p <+: q → root.at? q = root'.at? q) ∧
    ∃ draft draft', d.draft probe = .ok draft ∧ (d.put p new).draft probe = .ok draft' ∧
      ∀ q, q <+: p → q ≠ p →
        (root.at? q).isSome = (root'.at? q).isSome ∧
        ∀ node node', root.at? q = some node → root'.at? q = some node' →
          ∃ part part', draft.at? q = some part ∧ draft'.at? q = some part' ∧
            part.style = part'.style ∧ node.tag = node'.tag ∧
              Style.SameOver part.style node.style node'.style := by
  obtain ⟨draft, hdraft, rfl⟩ := exists_draft h
  obtain ⟨draft', hdraft', rfl⟩ := exists_draft h'
  have hdiffers := differsAt_draft hprobe hdraft hdraft'
  refine ⟨fun q hq hp => ?_, draft, draft', hdraft, hdraft', fun q hq hne => ?_⟩
  · rw [Scene.at?_finish, Scene.at?_finish, hdiffers.at?_eq hq hp]
  · have habove := hdiffers.above hq hne
    rw [Scene.at?_finish, Scene.at?_finish]
    generalize draft.at? q = x at habove
    generalize draft'.at? q = y at habove
    cases habove with
    | none => exact ⟨rfl, fun _ _ hnode => by cases hnode⟩
    | @some part part' hsame =>
        refine ⟨rfl, ?_⟩
        rintro _ _ ⟨⟩ ⟨⟩
        refine ⟨part, part', rfl, rfl, hsame.2, ?_, Scene.sameOver_finish hsame.2⟩
        rw [Scene.tag_finish, Scene.tag_finish, hsame.1]

end Document

end

/-- A picture, a clip in a sequence of its own, and the same clip again under another name. -/
def matinee : Document Rat where
  baseDir := ⟨""⟩
  frame := ⟨⟨320, 180⟩, 25⟩
  sheet := .empty
  root :=
    ⟨.cont, [("style", "time-padding: 10f")],
      [⟨.img, [("src", "a.png"), ("style", "object-length: 2s")], [], none⟩,
        ⟨.seq, [("style", "time-margin-end: 1s")], [⟨.vid, [("src", "clips//b.mp4")], [], none⟩], none⟩,
        ⟨.vid, [("src", "clips/b.mp4"), ("style", "width: 50%")], [], none⟩], none⟩

/-- A text in place of the first clip. -/
def matineeTitle : Node :=
  ⟨.txt, [("style", "object-length: 3s")], [], some "once more"⟩

def matineeProbe : Probe Rat := fun path =>
  if path.components = ["clips", "b.mp4"] then .ok ⟨some 5, some ⟨640, 480⟩, none⟩
  else .ok ⟨none, some ⟨320, 180⟩, none⟩

theorem ofFiles_matineeProbe : matineeProbe.OfFiles := by
  intro p q hsame
  rw [Path.same_iff] at hsame
  rw [matineeProbe, matineeProbe, hsame]

/-- The second clip is the same, whether or not the file was known from the first. -/
theorem Document.scene_put_matinee : ∃ root root' clip : Scene Rat Int,
    matinee.scene matineeProbe = .ok root ∧
      (matinee.put [1, 0] matineeTitle).scene matineeProbe = .ok root' ∧
        root.at? [2] = some clip ∧ root'.at? [2] = some clip := by
  have hrun : ((matinee.scene matineeProbe).toOption.map fun root : Scene Rat Int =>
      (root.at? [2]).isSome) = some true := by
    decide +kernel
  have hrun' : (((matinee.put [1, 0] matineeTitle).scene matineeProbe).toOption.map
      fun root : Scene Rat Int => (root.at? [2]).isSome) = some true := by
    decide +kernel
  obtain ⟨root, hroot, hclip⟩ := exists_ok_of_map hrun
  obtain ⟨root', hroot', -⟩ := exists_ok_of_map hrun'
  obtain ⟨clip, hclip⟩ := Option.isSome_iff_exists.1 hclip
  have hsame := (scene_put ofFiles_matineeProbe hroot hroot').1 [2] (by decide) (by decide)
  exact ⟨root, root', clip, hroot, hroot', hclip, hsame ▸ hclip⟩

end Montage
