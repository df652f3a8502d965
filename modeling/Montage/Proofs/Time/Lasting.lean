import Mathlib.Algebra.Order.Monoid.WithTop
import Mathlib.Algebra.Order.Ring.Rat
import Mathlib.Tactic.Ring
import Montage.Proofs.Compile.Whole

/-!
# How long streams last

The reading of streams as their durations in exact seconds.

**Input.** A clock, which tells how long the streams of files last, and a law, which tells how long a
picture lasts on which a layer is laid that need not end with it.

**Algorithm.** A cut is the lesser of two durations, silence that is added adds up, streams that are
joined end to end add up, and mixed sounds last as long as the longest.

**Results.** `Studio.timed` is the studio whose streams carry their durations; its equations say what
every step makes of a duration.
-/

namespace Montage

/-- How long a stream lasts; one without an end lasts `⊤`. -/
abbrev Lasting :=
  WithTop ℚ

/-- How long the streams of a file last, by the options before the input and the components of its
path. -/
abbrev Clock :=
  List String → List String → StreamKind → Lasting

/-- How long a picture lasts in which a layer that may end before its base or after it is laid over
the base, by how long the base and the layer last. -/
abbrev OverlayLaw :=
  Lasting → Lasting → Lasting

/-- The picture ends with its base, whatever is laid over it. -/
def OverlayLaw.withBase : OverlayLaw :=
  fun base _ => base

theorem OverlayLaw.le_withBase (base layer : Lasting) : base ≤ withBase base layer :=
  le_rfl

namespace Lasting

def least (as : List Lasting) : Lasting :=
  as.foldr min ⊤

def greatest (as : List Lasting) : Lasting :=
  as.foldr max 0

@[simp] theorem least_singleton (a : Lasting) : least [a] = a := by
  simp [least]

theorem least_pair (a b : Lasting) : least [a, b] = min a b := by
  simp [least]

end Lasting

open Lasting

namespace Filter

variable {π : Type}

/-- How long an output of a filter lasts, by how long its inputs last. A delay is taken at its exact
time, though it is written in whole milliseconds. -/
def lasting (law : OverlayLaw) : Filter ℚ π → List Lasting → StreamKind → Lasting
  | .color .., _, _ => ⊤
  | .silence _, _, _ => ⊤
  | .overlay _ _ .shortest, as, _ => least as
  | .overlay _ _ .pass, [base, layer], _ => law base layer
  | .overlay .., as, _ => Lasting.greatest as
  | .trim _ stop, as, _ => min (least as) stop
  | .seek start, as, _ => (least as).map (· - start)
  | .loop _, _, _ => ⊤
  | .holdBefore t _, as, _ => least as + t
  | .holdAfter t _, as, _ => least as + t
  | .holdLast, _, _ => ⊤
  | .delay t, as, _ => least as + t
  | .padAfter t, as, _ => least as + t
  | .padWhole t, as, _ => max (least as) t
  | .padForever, _, _ => ⊤
  | .concat _ _, as, _ => as.sum
  | .pair, as, .video => least (as.take 1)
  | .pair, as, .audio => least (as.drop 1)
  | .mix _, as, _ => Lasting.greatest as
  | _, as, _ => least as

end Filter

variable {π : Type}

/-- A known time that is not negative. -/
def Span.IsTime (t : Span ℚ) : Prop :=
  ∃ x, t = .seconds x ∧ 0 ≤ x

theorem Span.IsTime.nonneg {t : Span ℚ} (h : t.IsTime) : 0 ≤ t.secondsOrZero := by
  obtain ⟨x, rfl, hx⟩ := h
  exact hx

theorem Span.IsTime.seconds? {t : Span ℚ} (h : t.IsTime) : t.seconds? = some t.secondsOrZero := by
  obtain ⟨x, rfl, _⟩ := h
  rfl

/-- How long an object of the given length lasts. -/
def Span.lasting : Span ℚ → Lasting
  | .seconds t => t
  | _ => ⊤

theorem Span.IsTime.lasting {t : Span ℚ} (h : t.IsTime) : t.lasting = ↑t.secondsOrZero := by
  obtain ⟨x, rfl, _⟩ := h
  rfl

theorem Span.lasting_nonneg {t : Span ℚ} (h : t.IsTime ∨ t = .fit) : 0 ≤ t.lasting := by
  rcases h with ⟨x, rfl, hx⟩ | rfl
  · exact WithTop.coe_nonneg.2 hx
  · exact le_top

theorem Span.IsTime.isFit {t : Span ℚ} (h : t.IsTime) : t.isFit = false := by
  obtain ⟨x, rfl, _⟩ := h
  rfl

namespace Style

/-- The times around the object are known. -/
structure IsPaced (style : Style ℚ π) : Prop where
  marginStart : style.timeMarginStart.IsTime
  marginEnd : style.timeMarginEnd.IsTime
  paddingStart : style.timePaddingStart.IsTime
  paddingEnd : style.timePaddingEnd.IsTime

/-- All times are known. -/
structure IsTimed (style : Style ℚ π) : Prop extends style.IsPaced where
  object : style.objectLength.IsTime

/-- The time of the object with its paddings. -/
def paddedTime (style : Style ℚ π) : ℚ :=
  style.objectLength.secondsOrZero + style.timePaddingStart.secondsOrZero
    + style.timePaddingEnd.secondsOrZero

/-- The paddings in time; an open object has no end to pad. -/
def paddingTime (style : Style ℚ π) : ℚ :=
  style.timePaddingStart.secondsOrZero +
    if style.objectLength.isFit then 0 else style.timePaddingEnd.secondsOrZero

def marginTime (style : Style ℚ π) : ℚ :=
  style.timeMarginStart.secondsOrZero +
    if style.objectLength.isFit then 0 else style.timeMarginEnd.secondsOrZero

variable {style : Style ℚ π}

theorem IsTimed.paddedTime_eq (h : style.IsTimed) :
    style.paddedTime = style.objectLength.secondsOrZero + style.paddingTime := by
  rw [paddedTime, paddingTime, h.object.isFit, if_neg Bool.false_ne_true, add_assoc]

theorem IsTimed.paddedTime_nonneg (h : style.IsTimed) : 0 ≤ style.paddedTime :=
  add_nonneg (add_nonneg h.object.nonneg h.paddingStart.nonneg) h.paddingEnd.nonneg

theorem IsTimed.paddedLength (h : style.IsTimed) : style.paddedLength = .seconds style.paddedTime := by
  obtain ⟨x, hx, _⟩ := h.object
  obtain ⟨y, hy, _⟩ := h.paddingStart
  obtain ⟨z, hz, _⟩ := h.paddingEnd
  simp [Style.paddedLength, paddedTime, hx, hy, hz]

theorem IsTimed.marginTime_eq (h : style.IsTimed) :
    style.marginTime =
      style.timeMarginStart.secondsOrZero + style.timeMarginEnd.secondsOrZero := by
  rw [marginTime, h.object.isFit, if_neg Bool.false_ne_true]

theorem IsTimed.footprintLength (h : style.IsTimed) :
    style.footprintLength = .seconds (style.paddedTime + style.marginTime) := by
  obtain ⟨x, hx, _⟩ := h.marginStart
  obtain ⟨y, hy, _⟩ := h.marginEnd
  rw [Style.footprintLength, h.paddedLength, h.marginTime_eq, hx, hy]
  simp only [Span.seconds_add_seconds, Span.secondsOrZero_seconds]
  congr 1
  ring

/-- The object with its paddings and its margins lasts as long as the footprint. -/
theorem IsTimed.footprint_eq (h : style.IsTimed) :
    style.objectLength.lasting + ↑style.paddingTime + ↑style.marginTime =
      ↑style.footprintLength.secondsOrZero := by
  rw [h.object.lasting, h.footprintLength, h.paddedTime_eq]
  rfl

end Style

/-- Everything that is there lasts equally long. -/
def Content.Lasts (c : Content Lasting) (t : Lasting) : Prop :=
  (∀ v ∈ c.video, v = t) ∧ ∀ a ∈ c.audio, a = t

theorem Content.Lasts.map {c : Content Lasting} {t u : Lasting} (h : c.Lasts t)
    {onVideo onAudio : Lasting → Lasting} (hv : onVideo t = u) (ha : onAudio t = u) :
    (c.map onVideo onAudio).Lasts u := by
  constructor
  · intro v' hv'
    obtain ⟨v, hm, rfl⟩ := Option.map_eq_some_iff.1 hv'
    rw [h.1 v hm, hv]
  · intro a' ha'
    obtain ⟨a, hm, rfl⟩ := Option.map_eq_some_iff.1 ha'
    rw [h.2 a hm, ha]

/-- The studio whose streams carry how long they last, whichever media are heard. -/
def Studio.timed (clock : Clock) (law : OverlayLaw) (frame : Frame ℚ) (sampleRate : Nat) :
    Studio Lasting ℚ π where
  input i kind := clock i.options i.path.components kind
  filter := Filter.lasting law
  frame := frame
  sampleRate := sampleRate
  hears _ _ := True
  filter_split kind k a := by
    simp [Filter.lasting]
  input_same options p q kind h := by
    simp only [Path.same, beq_iff_eq] at h
    rw [h]
  hears_same _ _ _ _ _ := trivial

namespace Timed

variable {law : OverlayLaw} {s : Studio Lasting ℚ π}

theorem apply_eq (hs : s.filter = Filter.lasting law) (f : Filter ℚ π) (kind : StreamKind) :
    s.apply f kind = fun a => f.lasting law [a] kind := by
  funext a
  rw [Reading.apply, hs]

/-- Canvases have no end. -/
theorem canvas_eq (hs : s.filter = Filter.lasting law) (key : CanvasKey π) : s.canvas key = ⊤ := by
  simp [Studio.canvas, apply_eq hs, hs, Filter.lasting]

/-- A video on a canvas lasts as long as the video. -/
theorem overlay_eq (hs : s.filter = Filter.lasting law) (x y : π) (key : CanvasKey π) (a : Lasting) :
    s.filter (.overlay x y .shortest) [s.canvas key, a] .video = a := by
  rw [canvas_eq hs, hs, Filter.lasting, least_pair, top_inf_eq]

theorem delay_eq (hs : s.filter = Filter.lasting law) {t : ℚ} (ht : 0 ≤ t) (color : Option Color)
    (c : Content Lasting) : s.delay t color c = c.map (· + ↑t) (· + ↑t) := by
  unfold Studio.delay
  split
  · next h =>
      have h0 : t = 0 := le_antisymm h ht
      simp [Content.map, h0]
  · simp [Studio.applyBoth, apply_eq hs, Filter.lasting]

theorem append_eq (hs : s.filter = Filter.lasting law) {t : ℚ} (ht : 0 ≤ t) (color : Option Color)
    (c : Content Lasting) : s.append t color c = c.map (· + ↑t) (· + ↑t) := by
  unfold Studio.append
  split
  · next h =>
      have h0 : t = 0 := le_antisymm h ht
      simp [Content.map, h0]
  · simp [Studio.applyBoth, apply_eq hs, Filter.lasting]

theorem padded_eq (hs : s.filter = Filter.lasting law) {style : Style ℚ π} (hp : style.IsPaced)
    (c : Content Lasting) :
    s.padded style c = c.map (· + ↑style.paddingTime) (· + ↑style.paddingTime) := by
  unfold Studio.padded Style.paddingTime
  rw [delay_eq hs hp.paddingStart.nonneg]
  split
  · simp
  · rw [append_eq hs hp.paddingEnd.nonneg]
    simp [Content.map, Function.comp_def, add_assoc]

theorem spaced_eq (hs : s.filter = Filter.lasting law) {style : Style ℚ π} (hp : style.IsPaced)
    (c : Content Lasting) :
    s.spaced style c = c.map (· + ↑style.marginTime) (· + ↑style.marginTime) := by
  unfold Studio.spaced Style.marginTime
  rw [delay_eq hs hp.marginStart.nonneg]
  split
  · simp
  · rw [append_eq hs hp.marginEnd.nonneg]
    simp [Content.map, Function.comp_def, add_assoc]

theorem conform_eq (hs : s.filter = Filter.lasting law) (t : ℚ) (color : Option Color)
    (c : Content Lasting) :
    s.conform t color c = c.map (fun v => min (v + ↑t) ↑t) (fun a => min (max a ↑t) ↑t) := by
  simp [Studio.conform, apply_eq hs, Filter.lasting]

/-- What lasts as long as it shall is not changed by being brought to that length. -/
theorem conform_same (hs : s.filter = Filter.lasting law) {t : ℚ} (h0 : 0 ≤ t) (color : Option Color)
    {c : Content Lasting} (h : c.Lasts ↑t) : s.conform t color c = c := by
  obtain ⟨video, audio⟩ := c
  rw [conform_eq hs]
  have hv : min (t + t) t = t := min_eq_right (le_add_of_nonneg_left h0)
  cases video <;> cases audio <;>
    simp_all [Content.Lasts, Content.map, ← WithTop.coe_add]

theorem extend_eq (hs : s.filter = Filter.lasting law) (c : Content Lasting) :
    s.extend c = c.map (fun _ => ⊤) (fun _ => ⊤) := by
  simp [Studio.extend, Studio.applyBoth, apply_eq hs, Filter.lasting]

theorem track_eq (hs : s.filter = Filter.lasting law) {gap : ℚ} (hg : 0 ≤ gap) (a : Lasting) :
    Reel.track s gap a = a + ↑gap := by
  unfold Reel.track
  split
  · simp [apply_eq hs, Filter.lasting]
  · next h =>
      have h0 : gap = 0 := le_antisymm (not_lt.1 h) hg
      simp [h0]

/-- Segments end to end last as long as all of them together. -/
theorem concat_eq (hs : s.filter = Filter.lasting law) (kind : StreamKind) (as : List Lasting) :
    Reel.concat s kind as = if as = [] then none else some as.sum := by
  match as with
  | [] => rfl
  | [a] => simp [Reel.concat]
  | a :: b :: rest => simp [Reel.concat, hs, Filter.lasting]

theorem closeVideo_eq (hs : s.filter = Filter.lasting law) (container : Style ℚ π) (r : Reel Lasting ℚ)
    (h : 0 ≤ r.videoGap + r.pending) (v : Lasting) :
    r.closeVideo s container v = v + ↑(r.videoGap + r.pending) := by
  unfold Reel.closeVideo
  simp only
  split
  · simp [apply_eq hs, Filter.lasting]
  · next h' =>
      have h0 : r.videoGap + r.pending = 0 := le_antisymm (not_lt.1 h') h
      simp [h0]

theorem closeAudio_eq (hs : s.filter = Filter.lasting law) (r : Reel Lasting ℚ)
    (h : 0 ≤ r.audioGap + r.pending) (a : Lasting) :
    r.closeAudio s a = a + ↑(r.audioGap + r.pending) := by
  unfold Reel.closeAudio
  simp only
  split
  · simp [apply_eq hs, Filter.lasting]
  · next h' =>
      have h0 : r.audioGap + r.pending = 0 := le_antisymm (not_lt.1 h') h
      simp [h0]

variable [PixelCount π]

theorem board_eq (hs : s.filter = Filter.lasting law) (style : Style ℚ π) : s.board style = ⊤ :=
  canvas_eq hs _

/-- A segment lasts as long as its video and the gap before it. -/
theorem segment_eq (hs : s.filter = Filter.lasting law) (container child : Style ℚ π) {gap : ℚ}
    (hg : 0 ≤ gap) (a : Lasting) : Reel.segment s container child gap a = a + ↑gap := by
  unfold Reel.segment
  simp only [Studio.board, overlay_eq hs]
  split
  · simp [apply_eq hs, Filter.lasting]
  · next h =>
      have h0 : gap = 0 := le_antisymm (not_lt.1 h) hg
      simp [h0]

end Timed
end Montage
