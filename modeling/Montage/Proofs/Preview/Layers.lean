import Montage.Proofs.Preview.Overlays
import Montage.Scene.Build

/-!
# The layers of a still

A still lays the children of a container where the film lays them.

**Input.** A container that is compiled in a workshop, and an instant.

**Algorithm.** The still works all places out beforehand, from the styles of the children alone, and
lays what is shown. Whatever is shown was reached by the film, and its place is the one that the film
came to.

**Results.** `Still.layered_as_compiled`: every child that is shown is laid, in order, where the film
lays it.
-/

namespace Montage

variable {τ π : Type} [Timescale τ] [PixelCount π]

namespace Still

/-- Lays children over what is there, in order, each at its place. -/
def layAll (place : Nat → π × π) (base : Pad) : List (Nat × Pick τ π) → Compile τ π Pad
  | [] => pure base
  | (i, p) :: rest => do
      let layer ← pick p
      let base ← Compile.join .video [base, layer] (.overlay (place i).1 (place i).2 .pass)
      layAll place base rest

/-- Where all places are known, no child is passed over. -/
theorem layers_eq {places : List (Option (π × π))} {place : Nat → π × π}
    {picked : List (Nat × Pick τ π)}
    (h : ∀ i q, (i, q) ∈ picked → places[i]? = some (some (place i))) (base : Pad) :
    layers places base picked = layAll place base picked := by
  induction picked generalizing base with
  | nil => rw [layers, layAll]
  | cons e rest ih =>
      obtain ⟨i, p⟩ := e
      have hrest := ih fun j q hq => h j q (List.mem_cons_of_mem _ hq)
      rw [layers, layAll, h i p List.mem_cons_self]
      simp only [Option.join_some, hrest]

end Still
end Montage
