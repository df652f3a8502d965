import Mathlib.Algebra.Order.Ring.Rat
import Mathlib.Tactic.Linarith
import Montage.Proofs.Time.Document
import Montage.Proofs.Time.Sync

/-!
# The longest child

Children that play at once never take longer than the same children one after the other.

**Input.** The styles of children whose lengths are known and whose times are not negative.

**Algorithm.** A parallel lasts as long as its longest child, with the margins of that child. In a
sequence a child shares its margins with its neighbours, but the greater margin counts, so there is
room for every child with both of its margins.

**Results.**
* `Timeline.exists_sequenceFrom`: a sequence has room for each of its children.
* `Timeline.exists_parallelLength`: a parallel has room for each of its children, and one fills it.
* `Timeline.parallel_le_sequence`: the two together.
-/

namespace Montage

variable {π : Type}

/-- The length is known and no time is negative. What is not known of the times around the object
counts as none. -/
structure Style.HasLength (style : Style ℚ π) : Prop extends style.IsForward where
  known : style.objectLength.IsKnown

theorem Style.HasLength.isTime {style : Style ℚ π} (h : style.HasLength) :
    style.objectLength.IsTime :=
  h.known.isTime h.object

namespace Timeline

variable {style : Style ℚ π} {children : List (Style ℚ π)}

theorem footprintTime_eq (style : Style ℚ π) :
    footprintTime style =
      style.timeMarginStart.secondsOrZero + style.timePaddingStart.secondsOrZero
        + style.objectLength.secondsOrZero + style.timePaddingEnd.secondsOrZero
        + style.timeMarginEnd.secondsOrZero :=
  rfl

theorem footprintTime_nonneg (h : style.IsForward) : 0 ≤ footprintTime style := by
  rw [footprintTime_eq]
  linarith [h.object, h.marginStart, h.marginEnd, h.paddingStart, h.paddingEnd]

/-- The first child of a sequence, of which the greater margin counts. -/
theorem sequenceFrom_cons (ho : style.objectLength.IsTime) (total pending : ℚ)
    (rest : List (Style ℚ π)) :
    sequenceFrom total pending (style :: rest) =
      sequenceFrom
        (total + (max style.timeMarginStart.secondsOrZero pending
          + style.timePaddingStart.secondsOrZero + style.objectLength.secondsOrZero
          + style.timePaddingEnd.secondsOrZero))
        style.timeMarginEnd.secondsOrZero rest := by
  rw [sequenceFrom, ho.seconds?]
  rfl

/-- What is left of a sequence has room for the margin that is still to be met, and for every child
with both of its margins. -/
theorem exists_sequenceFrom (h : ∀ c ∈ children, c.HasLength) (total : ℚ) {pending : ℚ}
    (hp : 0 ≤ pending) :
    ∃ t, sequenceFrom total pending children = .seconds t ∧ total + pending ≤ t ∧
      ∀ c ∈ children, total + footprintTime c ≤ t := by
  induction children generalizing total pending with
  | nil => exact ⟨total + pending, rfl, le_rfl, by simp⟩
  | cons style rest ih =>
      obtain ⟨hs, hrest⟩ := List.forall_mem_cons.1 h
      have hlength := hs.object
      have hstart := hs.paddingStart
      have hend := hs.paddingEnd
      have hown := le_max_left style.timeMarginStart.secondsOrZero pending
      have hmet := le_max_right style.timeMarginStart.secondsOrZero pending
      obtain ⟨t, ht, htrail, hlater⟩ := ih hrest
        (total + (max style.timeMarginStart.secondsOrZero pending
          + style.timePaddingStart.secondsOrZero + style.objectLength.secondsOrZero
          + style.timePaddingEnd.secondsOrZero)) hs.marginEnd
      refine ⟨t, by rw [sequenceFrom_cons hs.isTime, ht], ?_, List.forall_mem_cons.2 ⟨?_, ?_⟩⟩
      · linarith [hs.marginEnd]
      · rw [footprintTime_eq]
        linarith
      · intro c hc
        linarith [hlater c hc]

/-- A parallel lasts as long as one of its children with both of its margins, and no child takes
longer. -/
theorem exists_parallelLength (hne : children ≠ []) (h : ∀ c ∈ children, c.HasLength) :
    ∃ t, parallelLength children = .seconds t ∧ (∀ c ∈ children, footprintTime c ≤ t) ∧
      ∃ c ∈ children, footprintTime c = t := by
  obtain ⟨first, hfirst⟩ := List.exists_mem_of_ne_nil children hne
  have hopen : ¬(children.all fun c => c.objectLength.seconds?.isNone) = true := by
    rw [List.all_eq_true]
    intro hall
    have hnone := hall first hfirst
    rw [(h first hfirst).isTime.seconds?] at hnone
    cases hnone
  have hlongest : (0 :: children.map footprintTime).max? =
      some ((children.map footprintTime).foldl max 0) :=
    rfl
  obtain ⟨hmem, hle⟩ := List.max?_eq_some_iff.1 hlongest
  have hfits : ∀ c ∈ children, footprintTime c ≤ (children.map footprintTime).foldl max 0 :=
    fun c hc => hle _ (List.mem_cons_of_mem _ (List.mem_map_of_mem hc))
  refine ⟨(children.map footprintTime).foldl max 0, if_neg hopen, hfits, ?_⟩
  rcases List.mem_cons.1 hmem with hzero | hmem
  · -- where nothing takes any time, the first child fills the parallel
    refine ⟨first, hfirst, le_antisymm (hfits first hfirst) ?_⟩
    rw [hzero]
    exact footprintTime_nonneg (h first hfirst).toIsForward
  · exact List.mem_map.1 hmem

/-- Children whose lengths are known take at most as long at once as one after the other. What they
take at once is the time of the longest of them, with its paddings and both of its margins. -/
theorem parallel_le_sequence (hne : children ≠ []) (h : ∀ c ∈ children, c.HasLength) :
    ∃ longest total, parallelLength children = .seconds longest ∧
      sequenceLength children = .seconds total ∧ longest ≤ total ∧
      (∀ c ∈ children, footprintTime c ≤ longest) ∧ ∃ c ∈ children, footprintTime c = longest := by
  obtain ⟨longest, hparallel, hfits, c, hc, hfills⟩ := exists_parallelLength hne h
  obtain ⟨total, hsequence, -, hroom⟩ := exists_sequenceFrom h 0 le_rfl
  refine ⟨longest, total, hparallel, ?_, ?_, hfits, c, hc, hfills⟩
  · rw [sequenceLength, if_neg (by simpa using hne)]
    exact hsequence
  · rw [← hfills, ← zero_add (footprintTime c)]
    exact hroom c hc

/-- A song between two texts: at once they take six seconds, and one after the other fourteen, since
two margins collapse. -/
theorem parallel_le_sequence_song :
    (∀ c ∈ songItems.map Scene.style, c.HasLength) ∧
      ∃ longest total, parallelLength (songItems.map Scene.style) = .seconds longest ∧
        sequenceLength (songItems.map Scene.style) = .seconds total ∧ longest ≤ total ∧
        (∃ c ∈ songItems.map Scene.style, footprintTime c = longest) ∧ longest = 6 ∧ total = 14 := by
  have hlengths : ∀ c ∈ songItems.map Scene.style, c.HasLength := by
    refine List.forall_mem_map.2 fun item hi => ?_
    have ht := songItems_isTimed item hi
    obtain ⟨t, hknown, -⟩ := ht.object
    exact ⟨⟨ht.object.nonneg, ht.marginStart.nonneg, ht.marginEnd.nonneg, ht.paddingStart.nonneg,
      ht.paddingEnd.nonneg⟩, t, hknown⟩
  obtain ⟨longest, total, hparallel, hsequence, hle, -, hfills⟩ :=
    parallel_le_sequence (by simp [songItems]) hlengths
  have hlongest : (parallelLength (songItems.map Scene.style)).secondsOrZero = 6 := by
    decide +kernel
  have htotal : (sequenceLength (songItems.map Scene.style)).secondsOrZero = 14 := by
    decide +kernel
  rw [hparallel] at hlongest
  rw [hsequence] at htotal
  exact ⟨hlengths, longest, total, hparallel, hsequence, hle, hfills, hlongest, htotal⟩

end Timeline
end Montage
