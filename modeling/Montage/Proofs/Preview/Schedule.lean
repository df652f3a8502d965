import Mathlib.Tactic.Linarith
import Montage.Preview.Pick
import Montage.Proofs.Scene.Streams
import Montage.Proofs.Time.Document
import Montage.Proofs.Time.Sync

/-!
# The schedule of a scene

When the children of a container are shown.

**Input.** A scene whose times are known and not negative; only objects may be open.

**Algorithm.** The children of a sequence start after each other, up to the first open one; the
children of a parallel start at their margins. The walk through a sequence that looks for an instant
meets its children at these times, and passes a child only if it has ended.

**Results.**
* `Scene.Starts`: when the object of a node starts.
* `mem_pickItems`: the children that are shown are those whose padded objects cover the instant.
-/

namespace Montage

variable {π : Type}

namespace Style

/-- The times are known and not negative; the object may be open. -/
structure IsSettled (style : Style ℚ π) : Prop extends style.IsPaced where
  object : style.objectLength.IsTime ∨ style.objectLength = .fit

/-- A time from the start of the object lies inside it. An open object has no end. -/
def Spans (style : Style ℚ π) (t : ℚ) : Prop :=
  0 ≤ t ∧ ∀ length, style.objectLength = .seconds length → t < length

/-- A time lies before the end of a padded object that starts at `start`. -/
def OutlastsFrom (style : Style ℚ π) (start t : ℚ) : Prop :=
  style.objectLength.isFit = true ∨ t < start + style.paddedTime

theorem covers_iff (style : Style ℚ π) (t : ℚ) : style.covers t = true ↔ style.Spans t := by
  unfold covers Spans
  rw [Bool.and_eq_true, decide_eq_true_iff]
  refine and_congr_right fun _ => ?_
  cases style.objectLength <;> simp [Span.seconds?]

variable {style : Style ℚ π}

theorem IsSettled.isTimed (h : style.IsSettled) (hfit : style.objectLength.isFit = false) :
    style.IsTimed := by
  refine ⟨h.toIsPaced, h.object.resolve_right ?_⟩
  intro ho
  rw [ho] at hfit
  cases hfit

theorem IsSettled.paddedLength_of_fit (h : style.IsSettled) (hfit : style.objectLength.isFit = true) :
    style.paddedLength.seconds? = none := by
  obtain ⟨x, hx, _⟩ := h.paddingStart
  obtain ⟨y, hy, _⟩ := h.paddingEnd
  rcases h.object with ht | ho
  · rw [ht.isFit] at hfit
    cases hfit
  · rw [paddedLength, ho, hx, hy]
    rfl

theorem IsSettled.endsAfter_iff (h : style.IsSettled) (start t : ℚ) :
    style.endsAfter start t = true ↔ style.OutlastsFrom start t := by
  unfold endsAfter OutlastsFrom
  cases hfit : style.objectLength.isFit with
  | true =>
      rw [h.paddedLength_of_fit hfit]
      simp only [true_or, iff_true]
      rfl
  | false =>
      rw [(h.isTimed hfit).paddedLength, Span.seconds?_seconds]
      simp

/-- An object that spans an instant has paddings that do not end before it. -/
theorem IsSettled.outlasts_of_spans (h : style.IsSettled) {start t : ℚ}
    (hs : style.Spans (t - (start + style.timePaddingStart.secondsOrZero))) :
    start ≤ t ∧ style.OutlastsFrom start t := by
  have hstart := h.paddingStart.nonneg
  have hend := h.paddingEnd.nonneg
  refine ⟨by linarith [hs.1], ?_⟩
  rcases h.object with ⟨length, hlength, _⟩ | ho
  · right
    have hlt := hs.2 length hlength
    rw [paddedTime, hlength, Span.secondsOrZero_seconds]
    linarith
  · left
    rw [ho]
    rfl

end Style

namespace Scene

/-- The children of a sequence up to the first open one, with the times at which they start. -/
def slots (items : List (Scene ℚ π)) : List (Scene ℚ π × ℚ) :=
  (kept items).zip (Timeline.onsets ((kept items).map style))

/-- The same after a margin that is still to be met. -/
def slotsAfter (t pending : ℚ) (items : List (Scene ℚ π)) : List (Scene ℚ π × ℚ) :=
  (kept items).zip (Timeline.onsetsAfter t pending ((kept items).map style))

theorem mem_of_mem_kept {item : Scene ℚ π} {items : List (Scene ℚ π)} (h : item ∈ kept items) :
    item ∈ items := by
  induction items with
  | nil => exact h
  | cons first rest ih =>
      rw [kept] at h
      split at h
      · rw [List.mem_singleton.1 h]
        exact List.mem_cons_self
      · rcases List.mem_cons.1 h with rfl | h
        · exact List.mem_cons_self
        · exact List.mem_cons_of_mem _ (ih h)

theorem slots_eq {items : List (Scene ℚ π)} (h : ∀ i ∈ items, i.style.IsSettled) :
    slots items = slotsAfter 0 0 items := by
  rw [slots, slotsAfter, Timeline.onsets_eq]
  intro style hs
  obtain ⟨item, hi, rfl⟩ := List.mem_map.1 hs
  exact (h item (mem_of_mem_kept hi)).marginStart.nonneg

/-- The first child starts after the greater of the adjacent margins, and if it is not open the others
start after its end. -/
theorem slotsAfter_cons (t pending : ℚ) (item : Scene ℚ π) (rest : List (Scene ℚ π)) :
    slotsAfter t pending (item :: rest) =
      let start := t + max item.style.timeMarginStart.secondsOrZero pending
      (item, start) :: if item.style.objectLength.isFit then [] else
        slotsAfter (start + item.style.paddedTime) item.style.timeMarginEnd.secondsOrZero rest := by
  rw [slotsAfter, kept]
  split
  · rfl
  · rw [List.map_cons, Timeline.onsetsAfter, Timeline.onsetsFrom_eq]
    rfl

/-- No child starts before the time that is already over. -/
theorem le_of_mem_slotsAfter {items : List (Scene ℚ π)} (h : ∀ i ∈ items, i.style.IsSettled)
    {t pending : ℚ} (hp : 0 ≤ pending) {slot : Scene ℚ π × ℚ}
    (hs : slot ∈ slotsAfter t pending items) : t ≤ slot.2 := by
  induction items generalizing t pending with
  | nil => simp [slotsAfter, kept] at hs
  | cons item rest ih =>
      have hitem := h item List.mem_cons_self
      have hlead : 0 ≤ max item.style.timeMarginStart.secondsOrZero pending := le_max_of_le_right hp
      rw [slotsAfter_cons] at hs
      rcases List.mem_cons.1 hs with rfl | hs
      · exact le_add_of_nonneg_right hlead
      · split at hs
        · cases hs
        · next hfit =>
            have hnonneg := (hitem.isTimed (Bool.eq_false_iff.2 hfit)).paddedTime_nonneg
            have hle := ih (fun i hi => h i (List.mem_cons_of_mem _ hi)) hitem.marginEnd.nonneg hs
            linarith

/-- The padded object of a child starts at a time in the object of its container. -/
inductive StartsIn (container : Style ℚ π) (items : List (Scene ℚ π)) (i : Nat) (item : Scene ℚ π) :
    ℚ → Prop
  | sequence {start : ℚ} (ho : container.order = .sequence)
      (h : (slots items)[i]? = some (item, start)) : StartsIn container items i item start
  | parallel (ho : container.order = .parallel) (h : items[i]? = some item) :
      StartsIn container items i item item.style.timeMarginStart.secondsOrZero

/-- The object of the node at a path starts at a time in the object of the scene. -/
inductive Starts : Scene ℚ π → List Nat → Scene ℚ π → ℚ → Prop
  | self (scene : Scene ℚ π) : Starts scene [] scene 0
  | child {tag : Tag} {container : Style ℚ π} {items : List (Scene ℚ π)} {i : Nat}
      {item node : Scene ℚ π} {path : List Nat} {start t : ℚ}
      (hi : StartsIn container items i item start) (h : Starts item path node t) :
      Starts (.container tag container items) (i :: path) node
        (start + item.style.timePaddingStart.secondsOrZero + t)

namespace StartsIn

variable {container : Style ℚ π} {items : List (Scene ℚ π)} {i : Nat} {item item' : Scene ℚ π}
  {start start' : ℚ}

theorem mem (h : StartsIn container items i item start) : item ∈ items := by
  cases h with
  | sequence ho h =>
      exact mem_of_mem_kept (List.of_mem_zip (List.mem_of_getElem? h)).1
  | parallel ho h => exact List.mem_of_getElem? h

theorem unique (h : StartsIn container items i item start)
    (h' : StartsIn container items i item' start') : item' = item ∧ start' = start := by
  cases h with
  | sequence ho h =>
      cases h' with
      | sequence ho' h' =>
          rw [h] at h'
          cases h'
          exact ⟨rfl, rfl⟩
      | parallel ho' h' =>
          rw [ho] at ho'
          cases ho'
  | parallel ho h =>
      cases h' with
      | sequence ho' h' =>
          rw [ho] at ho'
          cases ho'
      | parallel ho' h' =>
          rw [h] at h'
          cases h'
          exact ⟨rfl, rfl⟩

end StartsIn

/-- What stands above a node that can be seen can be seen. -/
theorem Starts.hasVideo {scene node : Scene ℚ π} {path : List Nat} {t : ℚ}
    (h : Starts scene path node t) (hv : node.hasVideo = true) : scene.hasVideo = true := by
  induction h with
  | self => exact hv
  | child hi _ ih =>
      rw [Scene.hasVideo, anyVideo_eq_any]
      exact List.any_eq_true.2 ⟨_, hi.mem, ih hv⟩

end Scene

namespace Pick

variable {τ : Type}

/-- A leaf is shown at a path, with what is shown of it. -/
inductive Shows : Pick τ π → List Nat → Scene τ π → Option τ → Prop
  | leaf {tag : Tag} {kind : MediaKind} {locator : Locator} {style : Style τ π} {offset : Option τ} :
      Shows (.leaf tag kind locator style offset) [] (.leaf tag kind locator style) offset
  | item {tag : Tag} {style : Style τ π} {siblings : List (Scene τ π)} {items : List (Nat × Pick τ π)}
      {i : Nat} {p : Pick τ π} {path : List Nat} {node : Scene τ π} {offset : Option τ}
      (hi : (i, p) ∈ items) (h : Shows p path node offset) :
      Shows (.container tag style siblings items) (i :: path) node offset

/-- A pick is a part of a pick. -/
inductive Within : Pick τ π → Pick τ π → Prop
  | self (p : Pick τ π) : Within p p
  | item {tag : Tag} {style : Style τ π} {siblings : List (Scene τ π)} {items : List (Nat × Pick τ π)}
      {i : Nat} {p part : Pick τ π} (hi : (i, p) ∈ items) (h : Within part p) :
      Within part (.container tag style siblings items)

end Pick

/-- The children of a container that are shown at a time in its object. -/
def pickItems (container : Style ℚ π) (items : List (Scene ℚ π)) (t : ℚ) : List (Nat × Pick ℚ π) :=
  match container.order with
  | .sequence => pickSequence 0 0 0 items t
  | .parallel => pickParallel 0 items t

/-- A child that starts at the given time is shown at an instant that its padded object covers. -/
def ShownFrom (start t : ℚ) (item : Scene ℚ π) (p : Pick ℚ π) : Prop :=
  start ≤ t ∧ item.style.OutlastsFrom start t ∧
    pickScene item (t - (start + item.style.timePaddingStart.secondsOrZero)) = some p

/-- What is met first on the way through a sequence, and what is met after it has ended. -/
theorem mem_pickSequence_cons {first : Scene ℚ π} (h : first.style.IsSettled)
    {rest : List (Scene ℚ π)} {index : Nat} {begin pending start t : ℚ}
    (hs : begin + max first.style.timeMarginStart.secondsOrZero pending = start) {k : Nat}
    {p : Pick ℚ π} :
    (k, p) ∈ pickSequence index begin pending (first :: rest) t ↔
      (k = index ∧ ShownFrom start t first p) ∨
        (start ≤ t ∧ ¬ first.style.OutlastsFrom start t ∧
          (k, p) ∈ pickSequence (index + 1) (start + first.style.paddedTime)
            first.style.timeMarginEnd.secondsOrZero rest t) := by
  subst hs
  set start := begin + max first.style.timeMarginStart.secondsOrZero pending
  rw [pickSequence, ShownFrom]
  split
  · next hlt =>
      have hlt' : t < start := hlt
      simp [not_le.2 hlt']
  · next hge =>
      have hge' : start ≤ t := not_lt.1 hge
      split
      · next hends =>
          have houtlasts : first.style.OutlastsFrom start t := (h.endsAfter_iff start t).1 hends
          split
          · next q hq =>
              have hq' : pickScene first (t - (start + first.style.timePaddingStart.secondsOrZero)) =
                some q := hq
              simp [hge', houtlasts, hq', eq_comm]
          · next hq =>
              have hq' : pickScene first (t - (start + first.style.timePaddingStart.secondsOrZero)) =
                none := hq
              simp [houtlasts, hq']
      · next hends =>
          have hpast : ¬ first.style.OutlastsFrom start t := fun ho =>
            hends ((h.endsAfter_iff start t).2 ho)
          have hfit : first.style.objectLength.isFit = false := by
            rw [← Bool.not_eq_true]
            exact fun hfit => hpast (Or.inl hfit)
          rw [(h.isTimed hfit).paddedLength, Span.seconds?_seconds]
          simp only [hge', hpast, not_false_eq_true, true_and, false_and, and_false, false_or]
          rfl

/-- A child of a sequence is shown if its padded object covers the instant. -/
theorem mem_pickSequence {items : List (Scene ℚ π)} (h : ∀ i ∈ items, i.style.IsSettled)
    {index : Nat} {begin pending t : ℚ} {k : Nat} {p : Pick ℚ π} :
    (k, p) ∈ pickSequence index begin pending items t ↔
      ∃ i item start, k = index + i ∧
        (Scene.slotsAfter begin pending items)[i]? = some (item, start) ∧
          ShownFrom start t item p := by
  induction items generalizing index begin pending with
  | nil => simp [pickSequence, Scene.slotsAfter, Scene.kept]
  | cons first rest ih =>
      have hfirst := h first List.mem_cons_self
      have hrest := fun i hi => h i (List.mem_cons_of_mem _ hi)
      rw [mem_pickSequence_cons hfirst rfl, ih hrest, Scene.slotsAfter_cons]
      constructor
      · rintro (⟨rfl, hshown⟩ | ⟨_, hpast, i, item, start, rfl, hslot, hshown⟩)
        · exact ⟨0, first, _, rfl, rfl, hshown⟩
        · refine ⟨i + 1, item, start, by omega, ?_, hshown⟩
          simp only [List.getElem?_cons_succ, if_neg fun hfit => hpast (Or.inl hfit)]
          exact hslot
      · rintro ⟨i, item, start, rfl, hslot, hshown⟩
        cases i with
        | zero =>
            cases hslot
            exact Or.inl ⟨rfl, hshown⟩
        | succ i =>
            simp only [List.getElem?_cons_succ] at hslot
            split at hslot
            · cases hslot
            · next hfit =>
                -- The first child has ended before a later one starts.
                have hle := Scene.le_of_mem_slotsAfter hrest hfirst.marginEnd.nonneg
                  (List.mem_of_getElem? hslot)
                have hnonneg := (hfirst.isTimed (Bool.eq_false_iff.2 hfit)).paddedTime_nonneg
                have hend := hle.trans hshown.1
                refine Or.inr ⟨by linarith, ?_, i, item, start, by omega, hslot, hshown⟩
                rintro (hopen | hlt)
                · exact hfit hopen
                · linarith

/-- What is met first on the way through a parallel, and what is met after it. -/
theorem mem_pickParallel_cons {first : Scene ℚ π} (h : first.style.IsSettled)
    {rest : List (Scene ℚ π)} {index : Nat} {t : ℚ} {k : Nat} {p : Pick ℚ π} :
    (k, p) ∈ pickParallel index (first :: rest) t ↔
      (k = index ∧ ShownFrom first.style.timeMarginStart.secondsOrZero t first p) ∨
        (k, p) ∈ pickParallel (index + 1) rest t := by
  generalize hlater : pickParallel (index + 1) rest t = later
  unfold pickParallel
  lift_lets
  intro style start others active
  have hactive : active = true ↔ start ≤ t ∧ style.OutlastsFrom start t := by
    simp only [active, Bool.and_eq_true, decide_eq_true_iff]
    refine and_congr_right fun _ => ?_
    unfold Style.OutlastsFrom
    cases hfit : style.objectLength.isFit with
    | true => simp [style, h.paddedLength_of_fit hfit]
    | false => simp [style, (h.isTimed hfit).paddedLength]
  have hshown : ShownFrom start t first p ↔ active = true ∧
      pickScene first (t - start - style.timePaddingStart.secondsOrZero) = some p := by
    rw [hactive, sub_sub, and_assoc, ShownFrom]
  have hothers : others = later := hlater
  change _ ↔ k = index ∧ ShownFrom start t first p ∨ _
  rw [hothers, hshown]
  cases active with
  | false => simp
  | true =>
      cases pickScene first (t - start - style.timePaddingStart.secondsOrZero) with
      | none => simp
      | some q => simp [eq_comm]

/-- A child of a parallel is shown if its padded object covers the instant. -/
theorem mem_pickParallel {items : List (Scene ℚ π)} (h : ∀ i ∈ items, i.style.IsSettled)
    {index : Nat} {t : ℚ} {k : Nat} {p : Pick ℚ π} :
    (k, p) ∈ pickParallel index items t ↔
      ∃ i item, k = index + i ∧ items[i]? = some item ∧
        ShownFrom item.style.timeMarginStart.secondsOrZero t item p := by
  induction items generalizing index with
  | nil => simp [pickParallel]
  | cons first rest ih =>
      have hfirst := h first List.mem_cons_self
      have hrest := fun i hi => h i (List.mem_cons_of_mem _ hi)
      rw [mem_pickParallel_cons hfirst, ih hrest]
      constructor
      · rintro (⟨rfl, hshown⟩ | ⟨i, item, rfl, hi, hshown⟩)
        · exact ⟨0, first, rfl, rfl, hshown⟩
        · exact ⟨i + 1, item, by omega, hi, hshown⟩
      · rintro ⟨i, item, rfl, hi, hshown⟩
        cases i with
        | zero =>
            cases hi
            exact Or.inl ⟨rfl, hshown⟩
        | succ i => exact Or.inr ⟨i, item, by omega, hi, hshown⟩

/-- The children of a container that are shown start in it, and their padded objects cover the
instant. -/
theorem mem_pickItems {container : Style ℚ π} {items : List (Scene ℚ π)}
    (h : ∀ i ∈ items, i.style.IsSettled) {t : ℚ} {k : Nat} {p : Pick ℚ π} :
    (k, p) ∈ pickItems container items t ↔
      ∃ item start, Scene.StartsIn container items k item start ∧ ShownFrom start t item p := by
  unfold pickItems
  cases ho : container.order with
  | sequence =>
      rw [mem_pickSequence h, ← Scene.slots_eq h]
      constructor
      · rintro ⟨i, item, start, rfl, hslot, hshown⟩
        exact ⟨item, start, .sequence ho (by rwa [zero_add]), hshown⟩
      · rintro ⟨item, start, hstarts, hshown⟩
        cases hstarts with
        | sequence _ hslot => exact ⟨k, item, start, (zero_add k).symm, hslot, hshown⟩
        | parallel ho' _ =>
            rw [ho] at ho'
            cases ho'
  | parallel =>
      rw [mem_pickParallel h]
      constructor
      · rintro ⟨i, item, rfl, hi, hshown⟩
        exact ⟨item, _, .parallel ho (by rwa [zero_add]), hshown⟩
      · rintro ⟨item, start, hstarts, hshown⟩
        cases hstarts with
        | sequence ho' _ =>
            rw [ho] at ho'
            cases ho'
        | parallel _ hi => exact ⟨k, item, (zero_add k).symm, hi, hshown⟩

end Montage
