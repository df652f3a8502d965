import Mathlib.Data.List.NodupEquivFin
import Montage.Sheet.Selector

/-!
# What a selector addresses

A selector addresses the descendants that its words describe.

**Input.** A selector, a node, and the ancestors of the node from the parent outward.

**Algorithm.** The words for ancestors are matched from the last to the first, each with the nearest
ancestor that fits and is not yet used; the walk never goes back.

**Results.**
* `Selector.fitsAncestors_tail`, `Selector.fitsAncestors_cons`: a word less or an ancestor more never
  makes the walk fail. This is what lets it take the nearest ancestor.
* `Selector.fitsAncestors_iff_sublist`: the walk succeeds if and only if some of the ancestors fit the
  words one by one.
* `Selector.selects_iff`: a selector addresses a node if and only if its last word fits the node and
  its other words fit ancestors in their order.
-/

namespace Montage
namespace Selector

variable {ws : List Segment} {as : List Identity}

@[simp] theorem fitsAncestors_nil (as : List Identity) : fitsAncestors [] as = true := by
  simp [fitsAncestors]

theorem fitsAncestors_cons_cons (w : Segment) (ws : List Segment) (a : Identity)
    (as : List Identity) : fitsAncestors (w :: ws) (a :: as) =
      if w.fits a then fitsAncestors ws as else fitsAncestors (w :: ws) as :=
  rfl

/-- A word less never makes the walk fail. -/
theorem fitsAncestors_tail {w : Segment} (h : fitsAncestors (w :: ws) as = true) :
    fitsAncestors ws as = true := by
  induction as generalizing w ws with
  | nil => simp [fitsAncestors] at h
  | cons a as ih =>
      cases ws with
      | nil => exact fitsAncestors_nil _
      | cons v vs =>
          -- the exchange: `v` may take `a`, since what it would have taken is then free
          have hv : fitsAncestors (v :: vs) as = true := by
            rw [fitsAncestors_cons_cons] at h
            split at h
            · exact h
            · exact ih h
          rw [fitsAncestors_cons_cons]
          split
          · exact ih hv
          · exact hv

/-- An ancestor more never makes the walk fail. -/
theorem fitsAncestors_cons (a : Identity) (h : fitsAncestors ws as = true) :
    fitsAncestors ws (a :: as) = true := by
  cases ws with
  | nil => exact fitsAncestors_nil _
  | cons w ws =>
      rw [fitsAncestors_cons_cons]
      split
      · exact fitsAncestors_tail h
      · exact h

/-- The walk succeeds if and only if some of the ancestors, in their order, fit the words one by
one. -/
theorem fitsAncestors_iff_sublist : fitsAncestors ws as = true ↔
    ∃ bs, bs.Sublist as ∧ List.Forall₂ (fun w b => w.fits b = true) ws bs := by
  constructor
  · intro h
    induction as generalizing ws with
    | nil =>
        cases ws with
        | nil => exact ⟨[], .slnil, .nil⟩
        | cons w ws => simp [fitsAncestors] at h
    | cons a as ih =>
        cases ws with
        | nil => exact ⟨[], List.nil_sublist _, .nil⟩
        | cons w ws =>
            rw [fitsAncestors_cons_cons] at h
            split at h
            · next hw =>
                obtain ⟨bs, hsub, hfit⟩ := ih h
                exact ⟨a :: bs, hsub.cons_cons a, .cons hw hfit⟩
            · obtain ⟨bs, hsub, hfit⟩ := ih h
              exact ⟨bs, hsub.cons a, hfit⟩
  · rintro ⟨bs, hsub, hfit⟩
    induction hsub generalizing ws with
    | slnil => cases hfit; exact fitsAncestors_nil _
    | cons a _ ih => exact fitsAncestors_cons a (ih hfit)
    | cons_cons a _ ih =>
        cases hfit with
        | cons hw hfit => simp [fitsAncestors_cons_cons, hw, ih hfit]

/-- Some elements of a list, in their order, stand in a relation to the elements of another list one
by one if and only if they can be named by places that go up. -/
theorem exists_sublist_iff_strictMono {α β : Type} {R : α → β → Prop} {xs : List α} {ys : List β} :
    (∃ zs, zs.Sublist ys ∧ List.Forall₂ R xs zs) ↔
      ∃ place : Fin xs.length → Fin ys.length, StrictMono place ∧
        ∀ i, R (xs.get i) (ys.get (place i)) := by
  constructor
  · rintro ⟨zs, hsub, hall⟩
    obtain ⟨f, hf⟩ := List.sublist_iff_exists_fin_orderEmbedding_get_eq.1 hsub
    obtain ⟨hlen, hget⟩ := List.forall₂_iff_get.1 hall
    refine ⟨fun i => f (i.cast hlen), fun i j hij => f.strictMono (by simpa using hij), ?_⟩
    intro i
    rw [← hf]
    exact hget i i.isLt (hlen ▸ i.isLt)
  · rintro ⟨place, hmono, hplace⟩
    refine ⟨List.ofFn fun i => ys.get (place i), ?_, ?_⟩
    · refine List.sublist_iff_exists_fin_orderEmbedding_get_eq.2
        ⟨OrderEmbedding.ofStrictMono (fun i => place (i.cast List.length_ofFn)) ?_, ?_⟩
      · exact fun i j hij => hmono (by simpa using hij)
      · intro i
        rw [List.get_eq_getElem, List.getElem_ofFn]
        rfl
    · refine List.forall₂_iff_get.2 ⟨by simp, ?_⟩
      intro i h₁ h₂
      simpa using hplace ⟨i, h₁⟩

/-- A selector addresses a node if and only if its last word fits the node and the words before it fit
ancestors, an earlier word one farther out; `ancestors` goes from the parent outward. -/
theorem selects_iff (s : Selector) (node : Identity) (ancestors : List Identity) :
    s.selects node ancestors = true ↔
      s.subject.fits node = true ∧
        ∃ place : Fin s.ancestors.length → Fin ancestors.length, StrictAnti place ∧
          ∀ j, (s.ancestors.get j).fits (ancestors.get (place j)) = true := by
  have hlen : s.ancestors.length = s.ancestors.reverse.length := List.length_reverse.symm
  rw [selects, Bool.and_eq_true, fitsAncestors_iff_sublist, exists_sublist_iff_strictMono]
  refine and_congr_right fun _ => ⟨?_, ?_⟩
  · -- the walk counts the words from the last one, so the places turn around
    rintro ⟨place, hmono, hfit⟩
    refine ⟨fun j => place (j.rev.cast hlen), fun i j hij => hmono (by simpa using hij), ?_⟩
    intro j
    have h := hfit (j.rev.cast hlen)
    simp only [List.get_eq_getElem, Fin.val_cast, Fin.val_rev, List.getElem_reverse] at h ⊢
    convert h using 3
    omega
  · rintro ⟨place, hanti, hfit⟩
    refine ⟨fun i => place (i.cast hlen.symm).rev, fun i j hij => hanti (by simpa using hij), ?_⟩
    intro i
    have h := hfit (i.cast hlen.symm).rev
    simp only [List.get_eq_getElem, Fin.val_cast, Fin.val_rev, List.getElem_reverse] at h ⊢
    convert h using 3
    omega

/-- A word that stands twice asks for two ancestors. -/
example :
    let scene : Identity := ⟨.prl, ["scene"], none⟩
    let s : Selector := ⟨[.class "scene", .class "scene"], .element "txt"⟩
    s.selects ⟨.txt, [], none⟩ [scene, ⟨.cont, [], none⟩, scene] = true ∧
      s.selects ⟨.txt, ["scene"], none⟩ [scene, ⟨.cont, [], none⟩] = false := by
  decide

end Selector
end Montage
