import Montage.Proofs.Measure.Words

/-!
# Sums of pixels

What sums of pixel counts have to do with the order of their terms.

**Input.** Pixel counts of any kind.

**Results.** `LawfulPixelCount` holds of whole numbers and of words. `CommutativePixelCount` holds of
whole numbers only: which of two calculations stops a program depends on which one is made first.
-/

namespace Montage

/-- Pixel counts among which no pixels add nothing. -/
class LawfulPixelCount (π : Type) [PixelCount π] : Prop where
  add_zero : ∀ n : π, n + 0 = n

instance : LawfulPixelCount Int where
  add_zero := Int.add_zero

instance : LawfulPixelCount Word where
  add_zero n := by
    refine Word.ext (Int.add_zero n.value) ?_
    cases hn : n.mishap? with
    | some c =>
        have hfirst : [n, 0].findSome? Word.mishap? = some c := by
          rw [List.findSome?_cons, hn]
        exact congrArg (Option.or · _) hfirst
    | none => exact Word.isFound_add.2 ⟨⟨hn, Word.isFound_zero⟩, by simpa using n.fits hn⟩

/-- Pixel counts whose sums and maxima do not depend on the order of their terms. -/
class CommutativePixelCount (π : Type) [PixelCount π] : Prop extends LawfulPixelCount π where
  add_assoc : ∀ a b c : π, a + b + c = a + (b + c)
  add_comm : ∀ a b : π, a + b = b + a
  add_sub_cancel : ∀ a b : π, a + b - b = a
  max_comm : ∀ a b : π, max a b = max b a
  zero_le_zero : (0 : π) ≤ 0
  max_zero : ∀ {a : π}, 0 ≤ a → max a 0 = a

instance : CommutativePixelCount Int where
  add_assoc := Int.add_assoc
  add_comm := Int.add_comm
  add_sub_cancel := Int.add_sub_cancel
  max_comm := Int.max_comm
  zero_le_zero := Int.le_refl 0
  max_zero := Int.max_eq_left

namespace CommutativePixelCount

variable {π : Type} [PixelCount π] [CommutativePixelCount π]

theorem zero_add (a : π) : 0 + a = a := by
  rw [add_comm, LawfulPixelCount.add_zero]

end CommutativePixelCount
end Montage
