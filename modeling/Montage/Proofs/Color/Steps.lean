import Mathlib.Tactic.IntervalCases
import Montage.Color.Reader
import Montage.Proofs.Color.Numbers

/-!
# Steps of channels

What the reader of colors makes of each of the 256 steps of a channel.

**Input.** A number of steps, as it is written, or rewritten as a fraction of 255.

**Algorithm.** The reading in single precision is run for every number of steps.

**Results.**
* `Color.single_channel`: a number of steps is a channel of as many.
* `Color.single_fraction`: its fraction is an opacity of as many steps, and as a channel no more
  than one.
-/

namespace Montage
namespace Color

open Decimal

/-- The fraction that a number of steps is rewritten as. -/
def fraction (n : Nat) : Scientific :=
  if n = 0 then ⟨0, 0⟩ else shortestOf (Float.ofNat n / 255.0)

/-- Whether a number of steps is a channel of as many. -/
def isChannelStep (n : Nat) : Bool :=
  step (clampUnit ((Literal.finite false n 0).toFloat32 / 255.0)) == UInt8.ofNat n

/-- Whether the fraction of a number of steps is written without an exponent, is an opacity of as
many steps, and as a channel no more than one. -/
def isOpacityStep (n : Nat) : Bool :=
  let x := (Literal.finite false (fraction n).digits (fraction n).exponent).toFloat32
  (match Exact.ofFloat (Float.ofNat n / 255.0) with
    | .finite false num _ => decide (num = 0) == decide (n = 0)
    | _ => false) &&
  decide ((fraction n).exponent ≤ 0) &&
  (step (clampUnit (x / 1.0)) == UInt8.ofNat n) &&
  step (clampUnit (x / 255.0)) == if 128 ≤ n then 1 else 0

/-- Numbers below 256 are checked in eight blocks, so that no evaluation grows large. -/
theorem all_of_blocks {p : Nat → Bool} (h : ∀ k < 8, (List.range' (32 * k) 32).all p = true) :
    (List.range 256).all p = true := by
  refine List.all_eq_true.2 fun n hn => ?_
  rw [List.mem_range] at hn
  exact List.all_eq_true.1 (h (n / 32) (by omega)) n (List.mem_range'_1.2 (by omega))

theorem isChannelStep_all : (List.range 256).all isChannelStep = true := by
  refine all_of_blocks fun k hk => ?_
  interval_cases k <;> decide +kernel

theorem isOpacityStep_all : (List.range 256).all isOpacityStep = true := by
  refine all_of_blocks fun k hk => ?_
  interval_cases k <;> decide +kernel

/-- A number of steps is a channel of as many. -/
theorem single_channel {w : List Char} {n : UInt8} (h : parseNat? w = some n.toNat) :
    ∃ x, single? w = some x ∧ step (clampUnit (x / 255.0)) = n := by
  have hstep : isChannelStep n.toNat = true :=
    List.all_eq_true.1 isChannelStep_all _ (List.mem_range.2 n.toNat_lt)
  refine ⟨(Literal.finite false n.toNat 0).toFloat32, ?_, ?_⟩
  · rw [single?, Literal.parse?_digits h, Option.map_some]
  · rw [isChannelStep, beq_iff_eq, UInt8.ofNat_toNat] at hstep
    exact hstep

theorem plainText_fraction (n : UInt8) :
    plainText (Float.ofNat n.toNat / 255.0) = String.ofList (fraction n.toNat).plain := by
  have hstep : isOpacityStep n.toNat = true :=
    List.all_eq_true.1 isOpacityStep_all _ (List.mem_range.2 n.toNat_lt)
  simp only [isOpacityStep, Bool.and_eq_true] at hstep
  obtain ⟨⟨⟨hexact, -⟩, -⟩, -⟩ := hstep
  unfold plainText
  split at hexact
  · next num den heq =>
      rw [heq]
      have hzero : num = 0 ↔ n.toNat = 0 := by simpa using hexact
      by_cases hn : n.toNat = 0
      · simp [hzero.2 hn, hn, fraction]
        decide
      · simp [mt hzero.1 hn, hn, fraction]
  · cases hexact

/-- The fraction of a number of steps is an opacity of as many, and as a channel no more than one. -/
theorem single_fraction (n : UInt8) :
    ∃ x, single? (fraction n.toNat).plain = some x ∧ step (clampUnit (x / 1.0)) = n ∧
      step (clampUnit (x / 255.0)) = if 128 ≤ n then 1 else 0 := by
  have hstep : isOpacityStep n.toNat = true :=
    List.all_eq_true.1 isOpacityStep_all _ (List.mem_range.2 n.toNat_lt)
  simp only [isOpacityStep, Bool.and_eq_true, decide_eq_true_eq, beq_iff_eq,
    UInt8.ofNat_toNat] at hstep
  obtain ⟨⟨⟨-, hexponent⟩, hopacity⟩, hchannel⟩ := hstep
  refine ⟨_, ?_, hopacity, hchannel.trans ?_⟩
  · rw [single?, Literal.parse?_plain _ hexponent, Option.map_some]
  · simp [UInt8.le_iff_toNat_le]

end Color
end Montage
