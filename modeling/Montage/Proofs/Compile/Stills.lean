import Montage.Preview.Still
import Montage.Proofs.Compile.Whole

/-!
# What stills carry

A still is compiled in a workshop like a film is, but of every node only the picture is asked for.

**Input.** The visible part of a scene.

**Algorithm.** The picture of a leaf is drawn, or taken from its media and wound forward. A container
lays the pictures of its children over its canvas one after the other.

**Results.** `Still.moves_picture`: one pad is given, whatever is visible.
-/

namespace Montage

variable {α τ π : Type} [Timescale τ] [PixelCount π]

namespace Still

open Compile

variable {s : Studio α τ π}

/-- Some pad is given. -/
def CarryingSome (p : Pad) (out : Multiset (Pad × α)) : Prop :=
  ∃ a, Carrying a p out

theorem moves_leaf (hh : ∀ key, s.hears key false) (tag : Tag) (kind : MediaKind)
    (locator : Locator) (style : Style τ π) (offset : Option τ) :
    Moves s (leaf tag kind locator style offset) 0 CarryingSome := by
  have hdrawn : ∀ t, Moves s (Leaf.drawing tag style t) 0 CarryingSome :=
    fun t => Moves.mono (Leaf.moves_drawing tag style t) fun p out h => ⟨_, h⟩
  cases offset with
  | none => exact Moves.mono (Leaf.moves_canvas tag style) fun p out h => ⟨_, h⟩
  | some offset =>
      unfold leaf
      simp only
      split
      · exact hdrawn _
      · exact hdrawn _
      · exact Moves.throw _
      · next path _ =>
          refine Moves.bind_all (moves_source true (hh ⟨path, kind⟩)) ?_
          rintro ⟨video, audio⟩ _ ⟨heard, x, y, _, hx, hy, rfl⟩
          obtain ⟨_ | y, rfl, hn, rfl⟩ := hy
          · obtain ⟨_ | ⟨p, a⟩, rfl, _, rfl⟩ := hx
            · exact Moves.throw _
            · have hframed : ∀ q b, Moves s (Leaf.pictureOf tag style q) {(q, b)} CarryingSome :=
                fun q b => Moves.mono (Leaf.moves_pictureOf tag style q b) fun _ _ h => ⟨_, h⟩
              simp only [Option.map_some]
              split
              · refine Moves.bind_all (moves_apply p a .video (.seek offset)) ?_
                rintro wound _ rfl
                refine Moves.bind_all (moves_apply wound _ .video .resetTimestamps) ?_
                rintro reset _ rfl
                exact hframed reset _
              · exact hframed p a
          · cases hn

mutual

/-- A visible part of a scene gives one pad. -/
theorem moves_pick (hh : ∀ key, s.hears key false) :
    ∀ p : Pick τ π, Moves s (pick p) 0 CarryingSome
  | .leaf tag kind locator style offset => by
      rw [pick]
      exact moves_leaf hh tag kind locator style offset
  | .container tag style siblings items => by
      rw [pick]
      refine Moves.bind_all (Leaf.moves_canvas tag style) ?_
      rintro base _ rfl
      exact Moves.after_counted
        (moves_layers hh items (places style (Flow.start style) siblings) base _)

/-- The layers of a container are laid over what is there. -/
theorem moves_layers (hh : ∀ key, s.hears key false) :
    ∀ (items : List (Nat × Pick τ π)) (places : List (Option (π × π))) (base : Pad) (a : α),
      Moves s (layers places base items) {(base, a)} CarryingSome
  | [], places, base, a => by
      rw [layers]
      exact Moves.pure ⟨a, rfl⟩
  | (index, p) :: rest, places, base, a => by
      rw [layers]
      split
      · exact moves_layers hh rest places base a
      · refine Moves.bind_zero (moves_pick hh p) ?_
        rintro layer _ ⟨b, rfl⟩
        rw [add_comm]
        refine Moves.bind_all (moves_join [(base, a), (layer, b)] .video _) ?_
        rintro placed _ rfl
        exact moves_layers hh rest places placed _

end

/-- The picture of a document is one pad. -/
theorem moves_picture (hh : ∀ key, s.hears key false) (root : Scene τ π)
    (resolution : Resolution) (second : τ) :
    Moves s (picture root resolution second) 0 CarryingSome := by
  have hcontent : Moves s ((visible root second).mapM pick) 0
      fun content out => ∃ a, CarryingOption a content out := by
    cases visible root second with
    | none => exact Moves.pure ⟨none, none, rfl, rfl, rfl⟩
    | some p =>
        refine Moves.map (moves_pick hh p) ?_
        rintro q _ ⟨a, rfl⟩
        exact ⟨some a, some (q, a), rfl, rfl, rfl⟩
  refine Moves.bind_all hcontent ?_
  rintro _ _ ⟨_, x, rfl, _, rfl⟩
  refine Moves.bind_zero (Film.moves_screen root.tag resolution _) ?_
  rintro base _ rfl
  cases x with
  | none => exact Moves.pure ⟨_, rfl⟩
  | some x =>
      refine Moves.mono (moves_join [(base, s.screen resolution root.style.backgroundColor), x]
        .video _) ?_
      exact fun p out h => ⟨_, h⟩

end Still
end Montage
