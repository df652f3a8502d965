import Mathlib.Algebra.Order.BigOperators.Group.List
import Mathlib.Algebra.Order.Ring.Rat
import Montage.Proofs.Compile.Visits
import Montage.Proofs.Scene.Built
import Montage.Proofs.Scene.Streams
import Montage.Proofs.Time.Leaves

/-!
# How long scenes last

The streams of a node last as long as its style says, but for the picture of a parallel, which may be
as long as its layers.

**Input.** The scene of a document, and media that last as long as the probe told.

**Algorithm.** Leaves and sequences are cut to their length. The canvas of a parallel is cut before
the layers are laid over it, its sound after it was mixed.

**Results.**
* `Visits.measured`: how long the streams of every node last.
* `Film.measured`: how long the streams of a film last.
-/

namespace Montage

variable {π : Type}

namespace Scene

mutual

/-- How long the picture of a node lasts without its paddings. -/
def picture (law : OverlayLaw) : Scene ℚ π → Lasting
  | leaf _ _ _ style => style.objectLength.lasting
  | container _ style items =>
      match style.order with
      | .sequence => style.objectLength.lasting
      | .parallel => layers law style.objectLength.lasting items

/-- How long a picture lasts after the pictures of children were laid over it. -/
def layers (law : OverlayLaw) : Lasting → List (Scene ℚ π) → Lasting
  | base, [] => base
  | base, item :: rest =>
      let layer := item.picture law + ↑item.style.paddingTime + ↑item.style.marginTime
      layers law (if item.shows then law base layer else base) rest

end

variable {law : OverlayLaw}

theorem le_layers (hlaw : ∀ base layer, base ≤ law base layer) (base : Lasting)
    (items : List (Scene ℚ π)) : base ≤ layers law base items := by
  induction items generalizing base with
  | nil => exact le_of_eq (by rw [layers])
  | cons item rest ih =>
      rw [layers]
      split
      · exact (hlaw base _).trans (ih _)
      · exact ih base

/-- A picture lasts at least as long as its object. -/
theorem lasting_le_picture (hlaw : ∀ base layer, base ≤ law base layer) (scene : Scene ℚ π) :
    scene.style.objectLength.lasting ≤ scene.picture law := by
  cases scene with
  | leaf tag kind locator style => exact le_of_eq (by rw [picture, Scene.style])
  | container tag style items =>
      rw [picture, Scene.style]
      split
      · exact le_rfl
      · exact le_layers hlaw _ items

theorem layers_withBase (base : Lasting) (items : List (Scene ℚ π)) :
    layers .withBase base items = base := by
  induction items with
  | nil => rw [layers]
  | cons item rest ih =>
      rw [layers, OverlayLaw.withBase, ite_self]
      exact ih

/-- A picture that ends with its base lasts as long as its object. -/
theorem picture_withBase (scene : Scene ℚ π) :
    scene.picture .withBase = scene.style.objectLength.lasting := by
  cases scene with
  | leaf tag kind locator style => rw [picture, Scene.style]
  | container tag style items =>
      rw [picture, Scene.style, layers_withBase]
      cases style.order <;> rfl

end Scene

namespace Scene

/-- What the length of a node depends on: its times are known and not negative or it is open, its
media last as long as its style knows, and it is open only because its children are. -/
inductive IsReady [PixelCount π] (s : Studio Lasting ℚ π) : Scene ℚ π → Prop
  | leaf {tag : Tag} {kind : MediaKind} {locator : Locator} {style : Style ℚ π}
      (hp : style.IsPaced) (ho : style.objectLength.IsTime ∨ style.objectLength = .fit)
      (hm : Leaf.Supplied s kind locator style) : IsReady s (.leaf tag kind locator style)
  | container {tag : Tag} {style : Style ℚ π} {items : List (Scene ℚ π)} (hp : style.IsPaced)
      (ho : style.objectLength.IsTime ∨ style.objectLength = .fit)
      (hs : style.order = .sequence → style.objectLength = .fit →
        items = [] ∨ ∃ i ∈ items, i.style.objectLength = .fit) :
      IsReady s (.container tag style items)

/-- All nodes of a scene are ready. -/
def AllReady [PixelCount π] (s : Studio Lasting ℚ π) (scene : Scene ℚ π) : Prop :=
  ∀ node : Scene ℚ π, node.Within scene → node.IsReady s

variable [PixelCount π] {s : Studio Lasting ℚ π}

theorem AllReady.item {tag : Tag} {style : Style ℚ π} {items : List (Scene ℚ π)}
    (h : (container tag style items).AllReady s) {i : Scene ℚ π} (hi : i ∈ items) :
    i.AllReady s :=
  fun node hn => h node (.item hi hn)

theorem IsReady.paced {node : Scene ℚ π} (h : node.IsReady s) : node.style.IsPaced := by
  cases h with
  | leaf hp => exact hp
  | container hp => exact hp

theorem IsReady.object {node : Scene ℚ π} (h : node.IsReady s) :
    node.style.objectLength.IsTime ∨ node.style.objectLength = .fit := by
  cases h with
  | leaf _ ho => exact ho
  | container _ ho => exact ho

end Scene

/-- A content lasts as a scene does: its video if there is one, its audio in any case. -/
structure Content.Measures (law : OverlayLaw) (scene : Scene ℚ π) (c : Content Lasting) : Prop where
  shown : c.video = none ↔ scene.shows = false
  video : ∀ v ∈ c.video, v = scene.picture law + ↑scene.style.paddingTime
  audio : ∀ a ∈ c.audio, a = scene.style.objectLength.lasting + ↑scene.style.paddingTime

theorem Style.IsPaced.paddingTime_nonneg {style : Style ℚ π} (h : style.IsPaced) :
    0 ≤ style.paddingTime := by
  unfold Style.paddingTime
  split
  · exact add_nonneg h.paddingStart.nonneg le_rfl
  · exact add_nonneg h.paddingStart.nonneg h.paddingEnd.nonneg

theorem Style.IsPaced.footprint_nonneg {style : Style ℚ π} (h : style.IsPaced)
    (ho : style.objectLength.IsTime ∨ style.objectLength = .fit) :
    0 ≤ style.paddedLength.secondsOrZero := by
  rcases ho with ho | ho
  · have ht : style.IsTimed := ⟨h, ho⟩
    rw [ht.paddedLength]
    exact ht.paddedTime_nonneg
  · have hfit : style.paddedLength = .fit := by
      rw [Style.paddedLength, ho]
      rfl
    rw [hfit]
    exact le_rfl

namespace Reel

variable {law : OverlayLaw} {s : Studio Lasting ℚ π} {r : Reel Lasting ℚ}

/-- No time in a reel is negative. -/
structure IsFair (r : Reel Lasting ℚ) : Prop where
  videos : ∀ v ∈ r.videos, 0 ≤ v
  videoGap : 0 ≤ r.videoGap
  pending : 0 ≤ r.pending

theorem isFair_start : (start : Reel Lasting ℚ).IsFair := by
  constructor <;> simp [start]

theorem IsFair.addAudio (h : r.IsFair) (lead footprint : ℚ) (audio : Option Lasting) :
    (r.addAudio s lead footprint audio).IsFair ∧
      (r.addAudio s lead footprint audio).videos = r.videos := by
  cases audio <;> exact ⟨⟨h.videos, h.videoGap, h.pending⟩, rfl⟩

/-- What a sequence makes of its segments before its length is set. -/
theorem IsFair.close (hs : s.filter = Filter.lasting law) (h : r.IsFair) (container : Style ℚ π) :
    (∀ v ∈ (r.close s container).video, 0 ≤ v) ∧
      ((r.close s container).video = none ↔ r.videos = []) := by
  have hconcat := Timed.concat_eq hs .video r.videos
  have hsum : 0 ≤ r.videos.sum := List.sum_nonneg h.videos
  unfold Reel.close
  simp only
  split
  · rw [Timed.extend_eq hs, hconcat]
    by_cases hn : r.videos = [] <;> simp [hn, Content.map]
  · simp only [hconcat, Content.map]
    by_cases hn : r.videos = []
    · simp [hn]
    · have hgap := add_nonneg h.videoGap h.pending
      simp only [hn, if_false, Option.map_some, Option.mem_some_iff,
        Timed.closeVideo_eq hs _ _ hgap]
      refine ⟨?_, by simp⟩
      rintro _ rfl
      exact add_nonneg hsum (WithTop.coe_nonneg.2 hgap)

/-- A sequence with an open child has no end before its length is set. -/
theorem endless_close (hs : s.filter = Filter.lasting law) (he : r.endless = true)
    (container : Style ℚ π) : (r.close s container).Lasts ⊤ := by
  unfold Reel.close
  simp only [he, if_true, Timed.extend_eq hs]
  simp [Content.Lasts, Content.map]

/-- A sequence lasts as long as its style says. -/
theorem IsFair.finish (hs : s.filter = Filter.lasting law) (h : r.IsFair) {style : Style ℚ π}
    (ho : style.objectLength.IsTime ∨ style.objectLength = .fit)
    (hfit : style.objectLength = .fit → r.endless = true ∨ r = start) :
    (r.finish s style).Lasts style.objectLength.lasting ∧
      ((r.finish s style).video = none ↔ r.videos = []) := by
  obtain ⟨hnonneg, hnone⟩ := h.close hs style
  unfold Reel.finish
  rcases ho with ⟨t, ht, h0⟩ | ho
  · simp only [ht, Span.seconds?_seconds, Timed.conform_eq hs, Span.lasting]
    refine ⟨⟨?_, ?_⟩, by simpa [Content.map] using hnone⟩
    · intro v' hv'
      obtain ⟨v, hv, rfl⟩ := Option.map_eq_some_iff.1 hv'
      exact min_eq_right (le_add_of_nonneg_left (hnonneg v hv))
    · intro a' ha'
      obtain ⟨a, ha, rfl⟩ := Option.map_eq_some_iff.1 ha'
      exact min_eq_right (le_max_right a _)
  · simp only [ho, Span.seconds?, Span.lasting]
    refine ⟨?_, hnone⟩
    rcases hfit ho with he | rfl
    · exact endless_close hs he style
    · constructor <;> simp [Reel.close, Reel.start, Reel.concat, Content.map]

variable [PixelCount π]

theorem IsFair.addVideo (hs : s.filter = Filter.lasting law) (h : r.IsFair)
    (container child : Style ℚ π) {lead footprint : ℚ} (hl : 0 ≤ lead) (hf : 0 ≤ footprint)
    {video : Option Lasting} (hv : ∀ v ∈ video, 0 ≤ v) :
    (r.addVideo s container child lead footprint video).IsFair ∧
      ((r.addVideo s container child lead footprint video).videos = [] ↔
        r.videos = [] ∧ video = none) := by
  cases video with
  | none => exact ⟨⟨h.videos, add_nonneg h.videoGap hf, h.pending⟩, by simp [Reel.addVideo]⟩
  | some v =>
      have hgap := add_nonneg h.videoGap hl
      simp only [Reel.addVideo, Timed.segment_eq hs _ _ hgap]
      refine ⟨⟨?_, le_rfl, h.pending⟩, by simp⟩
      intro v' hv'
      rcases List.mem_append.1 hv' with hv' | hv'
      · exact h.videos v' hv'
      · rw [List.mem_singleton.1 hv']
        exact add_nonneg (hv v rfl) (WithTop.coe_nonneg.2 hgap)

theorem IsFair.add (hs : s.filter = Filter.lasting law) (h : r.IsFair) (container : Style ℚ π)
    {child : Style ℚ π} (hp : child.IsPaced)
    (ho : child.objectLength.IsTime ∨ child.objectLength = .fit) {c : Content Lasting}
    (hc : ∀ v ∈ c.video, 0 ≤ v) :
    (r.add s container child c).IsFair ∧
      ((r.add s container child c).videos = [] ↔ r.videos = [] ∧ c.video = none) := by
  have hlead : 0 ≤ r.lead child := h.pending.trans (le_max_right _ _)
  have hfoot := add_nonneg hlead (hp.footprint_nonneg ho)
  obtain ⟨hvideo, hnil⟩ := h.addVideo hs container child hlead hfoot hc
  obtain ⟨haudio, hsame⟩ := hvideo.addAudio (s := s) (r.lead child)
    (r.lead child + child.paddedLength.secondsOrZero) c.audio
  exact ⟨⟨haudio.videos, haudio.videoGap, hp.marginEnd.nonneg⟩, by rw [← hnil, ← hsame]; rfl⟩

end Reel

namespace Blend

variable [PixelCount π] {law : OverlayLaw} {s : Studio Lasting ℚ π}

/-- The canvas of a parallel lasts as long as its style says. -/
theorem start_eq (hs : s.filter = Filter.lasting law) {style : Style ℚ π}
    (ho : style.objectLength.IsTime ∨ style.objectLength = .fit) (visible : Bool) :
    (start s style visible).video = if visible then some style.objectLength.lasting else none := by
  unfold start
  rcases ho with ⟨t, ht, _⟩ | ho
  · simp [ht, Timed.apply_eq hs, Timed.board_eq hs, Filter.lasting, Span.lasting]
  · simp [ho, Span.seconds?, Timed.board_eq hs, Span.lasting]

omit [PixelCount π] in
theorem fill_eq (hs : s.filter = Filter.lasting law) {style : Style ℚ π}
    (ho : style.objectLength.IsTime ∨ style.objectLength = .fit) (a : Lasting) :
    fill s style a = style.objectLength.lasting := by
  unfold fill
  rcases ho with ⟨t, ht, _⟩ | ho
  · simp [ht, Timed.apply_eq hs, Filter.lasting, Span.lasting]
  · simp [ho, Span.seconds?, Timed.apply_eq hs, Filter.lasting, Span.lasting]

/-- What a parallel shows after a child was added. -/
theorem add_eq (hs : s.filter = Filter.lasting law) (container child : Style ℚ π)
    (b : Blend Lasting π) (c : Content Lasting) :
    (b.add s container child c).video =
      match b.video, c.video with
      | some base, some layer => some (law base layer)
      | none, layer => layer
      | base, none => base := by
  unfold add
  cases c.video with
  | none => cases b.video <;> rfl
  | some layer =>
      cases b.video with
      | none => rfl
      | some base => simp [hs, Filter.lasting]

end Blend

section

variable [PixelCount π] {law : OverlayLaw} {s : Studio Lasting ℚ π}

theorem Content.Measures.video_nonneg (hlaw : ∀ base layer, base ≤ law base layer)
    {scene : Scene ℚ π} {c : Content Lasting} (h : c.Measures law scene) (hr : scene.IsReady s) :
    ∀ v ∈ c.video, 0 ≤ v := by
  intro v hv
  rw [h.video v hv]
  have hobject := Span.lasting_nonneg hr.object
  exact add_nonneg (hobject.trans (scene.lasting_le_picture hlaw))
    (WithTop.coe_nonneg.2 hr.paced.paddingTime_nonneg)

/-- A content that lasts as the object of a node does, with the paddings of the node. -/
theorem Content.Measures.padded (hs : s.filter = Filter.lasting law) {scene : Scene ℚ π}
    (hr : scene.IsReady s) {c : Content Lasting} (hn : c.video = none ↔ scene.shows = false)
    (hv : ∀ v ∈ c.video, v = scene.picture law)
    (ha : ∀ a ∈ c.audio, a = scene.style.objectLength.lasting) :
    (s.padded scene.style c).Measures law scene := by
  rw [Timed.padded_eq hs hr.paced]
  refine ⟨by simpa [Content.map] using hn, ?_, ?_⟩
  · intro v' hv'
    obtain ⟨v, hm, rfl⟩ := Option.map_eq_some_iff.1 hv'
    rw [hv v hm]
  · intro a' ha'
    obtain ⟨a, hm, rfl⟩ := Option.map_eq_some_iff.1 ha'
    rw [ha a hm]

/-- How long a child shows as a layer of a parallel scene. -/
theorem Content.Measures.spaced (hs : s.filter = Filter.lasting law) {scene : Scene ℚ π}
    (hr : scene.IsReady s) {c : Content Lasting} (h : c.Measures law scene) :
    (s.spaced scene.style c).video = if scene.shows then
      some (scene.picture law + ↑scene.style.paddingTime + ↑scene.style.marginTime) else none := by
  rw [Timed.spaced_eq hs hr.paced]
  cases hv : c.video with
  | none => simp [Content.map, hv, h.shown.1 hv]
  | some v =>
      have hshows : scene.shows = true := by
        rw [← Bool.not_eq_false]
        intro hshows
        rw [h.shown.2 hshows] at hv
        cases hv
      simp [Content.map, hv, hshows, h.video v hv]

mutual

/-- How long what a scene denotes lasts. -/
theorem Denotes.measures (hs : s.filter = Filter.lasting law)
    (hlaw : ∀ base layer, base ≤ law base layer) :
    ∀ {scene : Scene ℚ π} {c : Content Lasting}, Denotes s scene c → scene.AllReady s →
      c.Measures law scene
  | _, _, .leaf hn, hr => by
      have hnode := hr _ (.self _)
      cases hnode with
      | leaf hp ho hm =>
          have hlasts := hn.lasts hs hm ho
          exact .padded hs (.leaf hp ho hm) (Leaf.cut_none.trans hn.video_none) hlasts.1 hlasts.2
  | _, _, @Denotes.sequence _ _ _ _ _ _ tag style items r ho h, hr => by
      have hnode := hr _ (.self _)
      obtain ⟨hfair, hnil, hopen⟩ := h.measures hs hlaw (fun i hi => hr.item hi) Reel.isFair_start
      have hshown := hnil.trans (and_iff_right rfl)
      cases hnode with
      | container hp hobject hfit =>
          have hend : style.objectLength = .fit → r.endless = true ∨ r = .start := by
            intro hf
            rcases hfit ho hf with rfl | hsome
            · cases h
              exact Or.inr rfl
            · exact Or.inl (hopen hsome)
          obtain ⟨hlasts, hnone⟩ := hfair.finish hs hobject hend
          refine .padded hs (.container hp hobject hfit) ?_ ?_ hlasts.2
          · rw [Scene.shows, ho]
            exact hnone.trans hshown
          · rw [Scene.picture, ho]
            exact hlasts.1
  | _, _, @Denotes.parallel _ _ _ _ _ _ tag style items b ho h, hr => by
      have hnode := hr _ (.self _)
      cases hnode with
      | container hp hobject hfit =>
          have hstart := Blend.start_eq hs hobject (Scene.anyVideo items)
          have hvisible : (Blend.start s style (Scene.anyVideo items)).video = none →
              Scene.anyVideo items = false := by
            rw [hstart]
            simp
          have hvideo := h.measures hs hlaw (fun i hi => hr.item hi) hvisible
          rw [hstart] at hvideo
          have hfinish : (b.finish s style).video = b.video := rfl
          refine .padded hs (.container hp hobject hfit) ?_ ?_ ?_
          · rw [hfinish, hvideo, Scene.shows, ho]
            simp
          · rw [hfinish, hvideo, Scene.picture, ho]
            simp
          · intro a ha
            obtain ⟨mixed, _, rfl⟩ := Option.map_eq_some_iff.1 ha
            exact Blend.fill_eq hs hobject mixed

theorem DenotesSequence.measures (hs : s.filter = Filter.lasting law)
    (hlaw : ∀ base layer, base ≤ law base layer) :
    ∀ {container : Style ℚ π} {r : Reel Lasting ℚ} {items : List (Scene ℚ π)}
      {r' : Reel Lasting ℚ}, DenotesSequence s container r items r' →
      (∀ i ∈ items, i.AllReady s) → r.IsFair →
        r'.IsFair ∧ (r'.videos = [] ↔ r.videos = [] ∧ Scene.showsSequence items = false) ∧
          ((∃ i ∈ items, i.style.objectLength = .fit) → r'.endless = true)
  | _, _, _, _, .done, _, hfair => ⟨hfair, by simp [Scene.showsSequence], by simp⟩
  | container, _, _, _, .endless hc he, hr, hfair => by
      have hready := hr _ List.mem_cons_self
      have hnode := hready _ (.self _)
      have hm := hc.measures hs hlaw hready
      obtain ⟨hfair', hnil⟩ := hfair.add hs container hnode.paced hnode.object
        (hm.video_nonneg hlaw hnode)
      have hfit : Span.isFit _ = true := he
      refine ⟨hfair', ?_, fun _ => he⟩
      rw [hnil, hm.shown, Scene.showsSequence, hfit]
      simp
  | container, _, _, _, .next hc he h, hr, hfair => by
      have hready := hr _ List.mem_cons_self
      have hnode := hready _ (.self _)
      have hm := hc.measures hs hlaw hready
      obtain ⟨hfair', hnil⟩ := hfair.add hs container hnode.paced hnode.object
        (hm.video_nonneg hlaw hnode)
      obtain ⟨hfair'', hnil', hopen⟩ := h.measures hs hlaw
        (fun i hi => hr i (List.mem_cons_of_mem _ hi)) hfair'
      have hfit : Span.isFit _ = false := he
      refine ⟨hfair'', ?_, ?_⟩
      · rw [hnil', hnil, hm.shown, Scene.showsSequence, hfit]
        simp [and_assoc]
      · rintro ⟨i, hi, hf⟩
        rcases List.mem_cons.1 hi with rfl | hi
        · rw [hf] at hfit
          cases hfit
        · exact hopen ⟨i, hi, hf⟩

theorem DenotesParallel.measures (hs : s.filter = Filter.lasting law)
    (hlaw : ∀ base layer, base ≤ law base layer) :
    ∀ {container : Style ℚ π} {b : Blend Lasting π} {items : List (Scene ℚ π)}
      {b' : Blend Lasting π}, DenotesParallel s container b items b' →
      (∀ i ∈ items, i.AllReady s) → (b.video = none → Scene.anyVideo items = false) →
        b'.video = b.video.map fun base => Scene.layers law base items
  | _, b, _, _, .done, _, _ => by
      cases b.video <;> simp [Scene.layers]
  | container, b, _, _, @DenotesParallel.next _ _ _ _ _ _ _ _ _ item rest c hc h, hr, hn => by
      have hready := hr _ List.mem_cons_self
      have hadd := Blend.add_eq hs container item.style b (s.spaced item.style c)
      rw [(hc.measures hs hlaw hready).spaced hs (hready _ (.self _))] at hadd
      cases hb : b.video with
      | none =>
          have hnone := hn hb
          rw [Scene.anyVideo, Bool.or_eq_false_iff] at hnone
          have hshows : item.shows = false := by
            rw [← Bool.not_eq_true]
            intro hshows
            rw [Scene.hasVideo_of_shows hshows] at hnone
            cases hnone.1
          rw [hb, hshows] at hadd
          rw [h.measures hs hlaw (fun i hi => hr i (List.mem_cons_of_mem _ hi)) fun _ => hnone.2, hadd]
          rfl
      | some base =>
          have hsome : (b.add s container item.style (s.spaced item.style c)).video =
              some (if item.shows then
                law base (item.picture law + ↑item.style.paddingTime + ↑item.style.marginTime)
              else base) := by
            rw [hadd, hb]
            cases item.shows <;> rfl
          have hrest := h.measures hs hlaw (fun i hi => hr i (List.mem_cons_of_mem _ hi))
            (by rw [hsome]; simp)
          rw [hrest, hsome, Option.map_some, Option.map_some, Scene.layers]

end

end

section

variable [PixelCount π] {law : OverlayLaw} {s : Studio Lasting ℚ π}

/-- How long the streams of a node that is compiled last. -/
theorem Visits.measured (hs : s.filter = Filter.lasting law)
    (hlaw : ∀ base layer, base ≤ law base layer) {root : Scene ℚ π} {call : Call ℚ π}
    (h : Visits root (.start s.frame s.sampleRate) call) (hheard : root.Heard s)
    (hr : root.AllReady s) :
    ∃ c : Content Lasting, c.Measures law call.node ∧
      call.streams.Carry s.toReading call.after.graph c := by
  obtain ⟨c, hc, hcarry⟩ := h.denotes hheard
  exact ⟨c, hc.measures hs hlaw fun node hn => hr node (hn.trans h.within), hcarry⟩

namespace Timed

omit [PixelCount π] in
theorem paired_eq (hs : s.filter = Filter.lasting law) (c : Content Lasting) : s.paired c = c := by
  obtain ⟨video, audio⟩ := c
  cases video <;> cases audio <;> simp [Studio.paired, hs, Filter.lasting]

theorem staged_eq (hs : s.filter = Filter.lasting law) {style : Style ℚ π} (hp : style.IsPaced)
    (resolution : Resolution) (c : Content Lasting) :
    let t := style.timeMarginStart.secondsOrZero + style.timeMarginEnd.secondsOrZero
    s.staged style resolution c = c.map (· + ↑t) (· + ↑t) := by
  have hscreen : s.onScreen style resolution = id := by
    funext v
    exact overlay_eq hs _ _ _ v
  simp only [Studio.staged, hscreen, Option.map_id, id_eq]
  rw [delay_eq hs hp.marginStart.nonneg, append_eq hs hp.marginEnd.nonneg]
  simp [Content.map, Function.comp_def, add_assoc]

end Timed

open Film in
/-- How long the streams of a film last. -/
theorem Film.measured (hs : s.filter = Filter.lasting law)
    (hlaw : ∀ base layer, base ≤ law base layer) {root : Scene ℚ π} {film : Film ℚ π}
    (h : ofScene root s.frame s.sampleRate = .ok film) (hheard : root.Heard s)
    (hr : root.AllReady s) :
    root.style.objectLength.lasting + ↑root.style.paddingTime + ↑root.style.marginTime =
        ↑film.duration ∧
      (∀ p ∈ film.audio, film.graph.value s.toReading p = some ↑film.duration) ∧
      ∀ p ∈ film.video, film.graph.value s.toReading p =
        some (root.picture law + ↑root.style.paddingTime + ↑root.style.marginTime) := by
  have hnode := hr root (.self root)
  obtain ⟨c, hd, hcarry⟩ := denotes h hheard
  obtain ⟨hclosed, st, w, -, rfl⟩ := ofScene_eq_ok h
  have ht : root.style.IsTimed := by
    refine ⟨hnode.paced, hnode.object.resolve_right ?_⟩
    intro hfit
    rw [hfit] at hclosed
    cases hclosed
  have hm := hd.measures hs hlaw hr
  rw [Timed.staged_eq hs hnode.paced, Timed.paired_eq hs, ← ht.marginTime_eq] at hcarry
  refine ⟨ht.footprint_eq, fun p hp => ?_, fun p hp => ?_⟩
  · obtain ⟨_, hmem, hvalue⟩ := hcarry.value_audio hp
    obtain ⟨a, ha, rfl⟩ := Option.map_eq_some_iff.1 hmem
    rw [hvalue, hm.audio a ha, ht.footprint_eq]
  · obtain ⟨_, hmem, hvalue⟩ := hcarry.value_video hp
    obtain ⟨v, hv, rfl⟩ := Option.map_eq_some_iff.1 hmem
    rw [hvalue, hm.video v hv]

end

end Montage
