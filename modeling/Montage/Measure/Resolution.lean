import Montage.Measure.Timescale
import Montage.ValueError

/-!
# Frame size and rate

What a whole document is rendered to: the size of a frame in pixels and the frames per second.

**Input.** The text of a size, such as `1920x1080`.

**Algorithm.** The text is cut at its first `x`; either side is a count of 32 bits.

**Results.** A size that was read has positive sides.
-/

namespace Montage

/-- The size of an output frame. -/
structure Resolution where
  width : Nat
  height : Nat
  deriving Repr, DecidableEq

namespace Resolution

/-- The shorter side. -/
def shortSide (r : Resolution) : Nat :=
  min r.width r.height

/-- The longer side. -/
def longSide (r : Resolution) : Nat :=
  max r.width r.height

/-- Reads `WIDTHxHEIGHT` with two positive sides; blanks around either side are skipped. -/
def parse (s : String) : Except ValueError Resolution :=
  let sides := do
    let (w, h) ← Text.splitFirst? 'x' (Text.trim s.toList)
    let width ← Decimal.parseCount? UInt32.size (Text.trim w)
    let height ← Decimal.parseCount? UInt32.size (Text.trim h)
    if width = 0 ∨ height = 0 then none else some (⟨width, height⟩ : Resolution)
  match sides with
  | some r => .ok r
  | none => .error (.property "resolution" s)

/-- The form that `parse` reads. -/
def text (r : Resolution) : String :=
  r.width.repr ++ "x" ++ r.height.repr

theorem parse_pos {s : String} {r : Resolution} (h : parse s = .ok r) :
    0 < r.width ∧ 0 < r.height := by
  unfold parse at h
  simp only at h
  split at h
  · next r' hr =>
      obtain rfl : r' = r := by simpa using h
      simp only [Option.bind_eq_bind, Option.bind_eq_some_iff] at hr
      obtain ⟨⟨w, h'⟩, _, width, _, height, _, hif⟩ := hr
      split at hif
      · simp at hif
      · next hpos =>
          cases Option.some.inj hif
          exact ⟨Nat.pos_of_ne_zero fun h0 => hpos (Or.inl h0),
            Nat.pos_of_ne_zero fun h0 => hpos (Or.inr h0)⟩
  · simp at h

end Resolution

/-- The frame size and frame rate of a document. -/
structure Frame (τ : Type) where
  resolution : Resolution
  fps : τ
  deriving Repr

end Montage
