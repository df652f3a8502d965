import Montage.Scene.Basic

/-!
# The nodes of a scene

**Input.** A scene.

**Algorithm.** A node of a container is the container, or a node of one of its children.

**Results.** `Scene.forall_within_container`: what holds of all nodes, in terms of the children.
-/

namespace Montage

variable {τ π : Type}

namespace Scene

/-- A scene is a node of a tree. -/
inductive Within : Scene τ π → Scene τ π → Prop
  | self (scene : Scene τ π) : Within scene scene
  | item {node item : Scene τ π} {tag : Tag} {style : Style τ π} {items : List (Scene τ π)}
      (hi : item ∈ items) (h : Within node item) : Within node (.container tag style items)

theorem Within.trans {a b c : Scene τ π} (h : a.Within b) (h' : b.Within c) : a.Within c := by
  induction h' with
  | self => exact h
  | item hi _ ih => exact .item hi ih

/-- All nodes of a container are the container and the nodes of its children. -/
theorem forall_within_container {P : Scene τ π → Prop} {tag : Tag} {style : Style τ π}
    {items : List (Scene τ π)} :
    (∀ node : Scene τ π, node.Within (container tag style items) → P node) ↔
      P (container tag style items) ∧ ∀ i ∈ items, ∀ node : Scene τ π, node.Within i → P node := by
  constructor
  · intro h
    exact ⟨h _ (.self _), fun i hi node hn => h node (.item hi hn)⟩
  · rintro ⟨hself, hitems⟩ node hn
    cases hn with
    | self => exact hself
    | item hi hn => exact hitems _ hi node hn

theorem forall_within_leaf {P : Scene τ π → Prop} {tag : Tag} {kind : MediaKind}
    {locator : Locator} {style : Style τ π} :
    (∀ node : Scene τ π, node.Within (leaf tag kind locator style) → P node) ↔
      P (leaf tag kind locator style) := by
  constructor
  · intro h
    exact h _ (.self _)
  · intro h node hn
    cases hn
    exact h

mutual

/-- Whether all nodes of a scene pass a test. -/
def all (test : Scene τ π → Bool) : Scene τ π → Bool
  | leaf tag kind locator style => test (leaf tag kind locator style)
  | container tag style items => test (container tag style items) && allOf test items

def allOf (test : Scene τ π → Bool) : List (Scene τ π) → Bool
  | [] => true
  | item :: rest => item.all test && allOf test rest

end

mutual

theorem all_iff (test : Scene τ π → Bool) : ∀ scene : Scene τ π,
    scene.all test = true ↔ ∀ node : Scene τ π, node.Within scene → test node = true
  | leaf tag kind locator style => by
      rw [all, forall_within_leaf]
  | container tag style items => by
      rw [all, Bool.and_eq_true, allOf_iff test items, forall_within_container]

theorem allOf_iff (test : Scene τ π → Bool) : ∀ items : List (Scene τ π),
    allOf test items = true ↔ ∀ i ∈ items, ∀ node : Scene τ π, node.Within i → test node = true
  | [] => by simp [allOf]
  | item :: rest => by
      rw [allOf, Bool.and_eq_true, all_iff test item, allOf_iff test rest, List.forall_mem_cons]

end

/-- What can be decided of a node can be decided of all nodes of a scene. -/
instance decidableForallWithin (P : Scene τ π → Prop) [DecidablePred P] (scene : Scene τ π) :
    Decidable (∀ node : Scene τ π, node.Within scene → P node) :=
  decidable_of_iff (scene.all (decide <| P ·) = true) (by simp [all_iff])

end Scene
end Montage
