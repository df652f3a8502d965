import Mathlib.Tactic.Ring
import Montage.Proofs.Time.Leaves
import Montage.Proofs.Time.Starts
import Montage.Scene.Extent

/-!
# Sound and picture of sequences

The children of a sequence start at the same time in its video and in its audio, and the sequence
lasts as long as the sum that its style is settled by.

**Input.** The styles of the children, and the calls that compile them.

**Algorithm.** The gap that is open on each side makes up for what that side lacks, so both sides are
always equally far (`Reel.InStep`).

**Results.**
* `sequenceLength_eq`: the length of a sequence by the times at which its children start.
* `SequenceRun.plays`: every child starts at its time on both sides.
* `Visits.sequence_synced`: so it is in every sequence of a scene.
-/

namespace Montage

variable {π : Type}

namespace Timeline

/-- When children start in a sequence: the first, which starts at `t`, and those after it. Of adjacent
margins the greater counts. -/
def onsetsFrom (t : ℚ) (style : Style ℚ π) : List (Style ℚ π) → List ℚ
  | [] => [t]
  | next :: rest =>
      t :: onsetsFrom (t + style.paddedTime +
        max style.timeMarginEnd.secondsOrZero next.timeMarginStart.secondsOrZero) next rest

/-- When a sequence ends, of which a child starts at `t`. -/
def endFrom (t : ℚ) (style : Style ℚ π) : List (Style ℚ π) → ℚ
  | [] => t + style.paddedTime + style.timeMarginEnd.secondsOrZero
  | next :: rest =>
      endFrom (t + style.paddedTime +
        max style.timeMarginEnd.secondsOrZero next.timeMarginStart.secondsOrZero) next rest

/-- When the children of a sequence start. -/
def onsets : List (Style ℚ π) → List ℚ
  | [] => []
  | style :: rest => onsetsFrom style.timeMarginStart.secondsOrZero style rest

/-- When a sequence ends. -/
def total : List (Style ℚ π) → ℚ
  | [] => 0
  | style :: rest => endFrom style.timeMarginStart.secondsOrZero style rest

/-- When children start after a margin that is still to be met. -/
def onsetsAfter (t pending : ℚ) : List (Style ℚ π) → List ℚ
  | [] => []
  | style :: rest => onsetsFrom (t + max style.timeMarginStart.secondsOrZero pending) style rest

def endAfter (t pending : ℚ) : List (Style ℚ π) → ℚ
  | [] => t + pending
  | style :: rest => endFrom (t + max style.timeMarginStart.secondsOrZero pending) style rest

theorem onsetsFrom_eq (t : ℚ) (style : Style ℚ π) (rest : List (Style ℚ π)) :
    onsetsFrom t style rest =
      t :: onsetsAfter (t + style.paddedTime) style.timeMarginEnd.secondsOrZero rest := by
  cases rest with
  | nil => rfl
  | cons next rest => rw [onsetsFrom, onsetsAfter, max_comm]

theorem endFrom_eq (t : ℚ) (style : Style ℚ π) (rest : List (Style ℚ π)) :
    endFrom t style rest =
      endAfter (t + style.paddedTime) style.timeMarginEnd.secondsOrZero rest := by
  cases rest with
  | nil => rfl
  | cons next rest => rw [endFrom, endAfter, max_comm]

variable {styles : List (Style ℚ π)}

theorem onsets_eq (hm : ∀ style ∈ styles, 0 ≤ style.timeMarginStart.secondsOrZero) :
    onsets styles = onsetsAfter 0 0 styles := by
  cases styles with
  | nil => rfl
  | cons style rest =>
      rw [onsets, onsetsAfter, zero_add, max_eq_left (hm style List.mem_cons_self)]

theorem total_eq (ht : ∀ style ∈ styles, style.IsTimed) : total styles = endAfter 0 0 styles := by
  cases styles with
  | nil => exact (add_zero 0).symm
  | cons style rest =>
      rw [total, endAfter, zero_add,
        max_eq_left (ht style List.mem_cons_self).marginStart.nonneg]

theorem endAfter_nonneg (ht : ∀ style ∈ styles, style.IsTimed) {t pending : ℚ} (h : 0 ≤ t)
    (hp : 0 ≤ pending) : 0 ≤ endAfter t pending styles := by
  induction styles generalizing t pending with
  | nil => exact add_nonneg h hp
  | cons style rest ih =>
      have hstyle := ht style List.mem_cons_self
      rw [endAfter, endFrom_eq]
      refine ih (fun st hst => ht st (List.mem_cons_of_mem _ hst)) ?_ hstyle.marginEnd.nonneg
      exact add_nonneg (add_nonneg h (le_max_of_le_right hp)) hstyle.paddedTime_nonneg

theorem total_nonneg (ht : ∀ style ∈ styles, style.IsTimed) : 0 ≤ total styles := by
  rw [total_eq ht]
  exact endAfter_nonneg ht le_rfl le_rfl

/-- The sum over the children that a style is settled by comes to the end of the sequence. -/
theorem sequenceFrom_eq (ht : ∀ style ∈ styles, style.IsTimed) (t pending : ℚ) :
    sequenceFrom t pending styles = .seconds (endAfter t pending styles) := by
  induction styles generalizing t pending with
  | nil => rfl
  | cons style rest ih =>
      rw [sequenceFrom, (ht style List.mem_cons_self).object.seconds?]
      simp only
      rw [ih fun st hst => ht st (List.mem_cons_of_mem _ hst), endAfter, endFrom_eq, Style.paddedTime]
      congr 2
      change t + (max style.timeMarginStart.secondsOrZero pending + _ + _ + _) = _
      ring

theorem sequenceLength_eq (hne : styles ≠ []) (ht : ∀ style ∈ styles, style.IsTimed) :
    sequenceLength styles = .seconds (total styles) := by
  rw [sequenceLength, if_neg (by simpa using hne), sequenceFrom_eq ht, total_eq ht]

end Timeline

/-- Every stream that is there lasts equally long. -/
def Streams.Last (r : Reading Lasting ℚ π) (g : Graph (Filter ℚ π)) (st : Streams) (t : Lasting) :
    Prop :=
  (∀ p ∈ st.video, g.value r p = some t) ∧ ∀ p ∈ st.audio, g.value r p = some t

/-- The streams that are there start in the segments of a playlist joined end to end, so long after
the start of the first. -/
def Playlist.Plays (r : Reading Lasting ℚ π) (g : Graph (Filter ℚ π)) (p : Playlist ℚ) (st : Streams)
    (t : Lasting) : Prop :=
  (∀ q ∈ st.video, g.StartsAmong r q p.videos t) ∧ ∀ q ∈ st.audio, g.StartsAmong r q p.audios t

section

variable {r : Reading Lasting ℚ π} {g g' : Graph (Filter ℚ π)} {st : Streams} {t : Lasting}

theorem Streams.Carry.last_iff {c : Content Lasting} (h : st.Carry r g c) :
    st.Last r g t ↔ c.Lasts t := by
  obtain ⟨hv, ha⟩ := h
  obtain ⟨video, audio⟩ := st
  obtain ⟨v, a⟩ := c
  cases video <;> cases v <;> cases audio <;> cases a <;>
    simp_all [Last, Content.Lasts]

/-- A playlist goes on from another, and the graph with it. -/
structure Playlist.Follows (r : Reading Lasting ℚ π) (p : Playlist ℚ) (g : Graph (Filter ℚ π))
    (p' : Playlist ℚ) (g' : Graph (Filter ℚ π)) : Prop where
  videos : p.videos <+: p'.videos
  audios : p.audios <+: p'.audios
  grows : g.Grows r g'

theorem Playlist.Follows.refl (p : Playlist ℚ) : Follows r p g p g :=
  ⟨List.prefix_rfl, List.prefix_rfl, .refl r g⟩

theorem Playlist.Follows.trans {p p' p'' : Playlist ℚ} {g'' : Graph (Filter ℚ π)}
    (h : Follows r p g p' g') (h' : Follows r p' g' p'' g'') : Follows r p g p'' g'' :=
  ⟨h.videos.trans h'.videos, h.audios.trans h'.audios, h.grows.trans h'.grows⟩

theorem Playlist.Plays.follow {p p' : Playlist ℚ} (h : p.Plays r g st t)
    (hf : Follows r p g p' g') : p'.Plays r g' st t := by
  obtain ⟨more, hv⟩ := hf.videos
  obtain ⟨more', ha⟩ := hf.audios
  exact ⟨fun q hq => hv ▸ ((h.1 q hq).append more).grows hf.grows,
    fun q hq => ha ▸ ((h.2 q hq).append more').grows hf.grows⟩

end

/-- A side that lacks the streams of a child makes up for them with its gap. -/
theorem Timeline.sum_gap {sum : Lasting} {gap t : ℚ} (h : sum + ↑gap = ↑t) (lead length : ℚ) :
    sum + ↑(gap + (lead + length)) = ↑(t + lead + length) := by
  rw [WithTop.coe_add, ← add_assoc, h, ← WithTop.coe_add, add_assoc t]

theorem Timeline.sum_segment {segments : List Lasting} {gap t : ℚ}
    (h : segments.sum + ↑gap = ↑t) (lead length : ℚ) :
    (segments ++ [(length : Lasting) + ↑(gap + lead)]).sum + ↑(0 : ℚ) = ↑(t + lead + length) := by
  rw [← sum_gap h lead length, List.sum_append, List.sum_singleton, WithTop.coe_zero, add_zero,
    ← WithTop.coe_add]
  congr 2
  ring

namespace Reel

variable {law : OverlayLaw} {s : Studio Lasting ℚ π} {r : Reel Lasting ℚ} {t lead length : ℚ}

/-- The segments of the video and the gap that is open there come to a time. -/
def VideoAt (r : Reel Lasting ℚ) (t : ℚ) : Prop :=
  r.videos.sum + ↑r.videoGap = ↑t ∧ 0 ≤ r.videoGap

def AudioAt (r : Reel Lasting ℚ) (t : ℚ) : Prop :=
  r.audios.sum + ↑r.audioGap = ↑t ∧ 0 ≤ r.audioGap

/-- Both sides have come to the same time. -/
structure InStep (r : Reel Lasting ℚ) (t : ℚ) : Prop where
  video : r.VideoAt t
  audio : r.AudioAt t
  pending_nonneg : 0 ≤ r.pending
  endless : r.endless = false

theorem inStep_start : (start : Reel Lasting ℚ).InStep 0 := by
  constructor <;> simp [start, VideoAt, AudioAt]

theorem InStep.lead_nonneg (h : r.InStep t) (child : Style ℚ π) : 0 ≤ r.lead child :=
  h.pending_nonneg.trans (le_max_right _ _)

theorem AudioAt.addAudio (hs : s.filter = Filter.lasting law) (h : r.AudioAt t) (hl : 0 ≤ lead)
    (hn : 0 ≤ length) {audio : Option Lasting} (ha : ∀ a ∈ audio, a = length) :
    (r.addAudio s lead (lead + length) audio).AudioAt (t + lead + length) := by
  cases audio with
  | none => exact ⟨Timeline.sum_gap h.1 lead length, add_nonneg h.2 (add_nonneg hl hn)⟩
  | some a =>
      obtain rfl := ha a rfl
      simp only [Reel.addAudio, Timed.track_eq hs (add_nonneg h.2 hl)]
      exact ⟨Timeline.sum_segment h.1 lead length, le_rfl⟩

theorem VideoAt.addAudio (h : r.VideoAt t) (audio : Option Lasting) (footprint : ℚ) :
    (r.addAudio s lead footprint audio).VideoAt t := by
  cases audio <;> exact h

variable [PixelCount π]

theorem VideoAt.addVideo (hs : s.filter = Filter.lasting law) (h : r.VideoAt t)
    (container child : Style ℚ π) (hl : 0 ≤ lead) (hn : 0 ≤ length) {video : Option Lasting}
    (hv : ∀ v ∈ video, v = length) :
    (r.addVideo s container child lead (lead + length) video).VideoAt (t + lead + length) := by
  cases video with
  | none => exact ⟨Timeline.sum_gap h.1 lead length, add_nonneg h.2 (add_nonneg hl hn)⟩
  | some v =>
      obtain rfl := hv v rfl
      simp only [Reel.addVideo, Timed.segment_eq hs _ _ (add_nonneg h.2 hl)]
      exact ⟨Timeline.sum_segment h.1 lead length, le_rfl⟩

theorem AudioAt.addVideo (h : r.AudioAt t) (container child : Style ℚ π) (video : Option Lasting)
    (footprint : ℚ) : (r.addVideo s container child lead footprint video).AudioAt t := by
  cases video <;> exact h

/-- A child whose streams last equally long keeps both sides in step. -/
theorem InStep.add (hs : s.filter = Filter.lasting law) (h : r.InStep t) (container : Style ℚ π)
    {child : Style ℚ π} (ht : child.IsTimed) {c : Content Lasting}
    (hc : c.Lasts child.paddedTime) :
    (r.add s container child c).InStep (t + r.lead child + child.paddedTime) := by
  have hfoot : child.paddedLength.secondsOrZero = child.paddedTime := by
    rw [ht.paddedLength]
    rfl
  have hlead := h.lead_nonneg child
  have hlen := ht.paddedTime_nonneg
  obtain ⟨x, hx, -⟩ := ht.object
  unfold Reel.add
  rw [hfoot]
  constructor
  · exact (h.video.addVideo hs container child hlead hlen hc.1).addAudio c.audio _
  · exact (h.audio.addVideo container child c.video _).addAudio hs hlead hlen hc.2
  · exact ht.marginEnd.nonneg
  · simp [hx, Span.isFit]

omit [PixelCount π] in
/-- What is closed lasts to the end of the margin that is still to be met. -/
theorem InStep.close (hs : s.filter = Filter.lasting law) (h : r.InStep t) (container : Style ℚ π) :
    (r.close s container).Lasts ↑(t + r.pending) := by
  unfold Reel.close
  simp only [h.endless, Timed.concat_eq hs, Bool.false_eq_true, if_false, Content.map]
  constructor
  · intro v hv
    by_cases hn : r.videos = []
    · simp [hn] at hv
    · simp only [hn, if_false, Option.map_some, Option.mem_some_iff] at hv
      rw [← hv, Timed.closeVideo_eq hs _ _ (add_nonneg h.video.2 h.pending_nonneg),
        WithTop.coe_add, ← add_assoc, h.video.1, ← WithTop.coe_add]
  · intro a ha
    by_cases hn : r.audios = []
    · simp [hn] at ha
    · simp only [hn, if_false, Option.map_some, Option.mem_some_iff] at ha
      rw [← ha, Timed.closeAudio_eq hs _ (add_nonneg h.audio.2 h.pending_nonneg),
        WithTop.coe_add, ← add_assoc, h.audio.1, ← WithTop.coe_add]

end Reel

namespace Playlist

open Compile

variable {law : OverlayLaw} {s : Studio Lasting ℚ π} {r : Reel Lasting ℚ} {p p' : Playlist ℚ}
  {w w' : Workshop ℚ π} {t : ℚ} {held rest : Multiset (Pad × Lasting)}

theorem Carrying.values (hr : Carrying r p held) (rest : Multiset (Pad × Lasting))
    (hw : w.Balanced s (held + rest)) :
    p.videos.mapM (w.graph.value s.toReading) = some r.videos ∧
      p.audios.mapM (w.graph.value s.toReading) = some r.audios := by
  obtain ⟨v, u, rfl, hv, hu, rfl⟩ := hr
  rw [hv, hu]
  constructor
  · exact Reading.mapM_values fun x hx => hw.values x (by simp [hx])
  · exact Reading.mapM_values fun x hx => hw.values x (by simp [hx])

theorem Carrying.pending (hr : Carrying r p held) : p.pending = r.pending := by
  obtain ⟨v, u, _, _, _, rfl⟩ := hr
  rfl

/-- What starts in the segments of a playlist starts in the streams that they are joined to. -/
theorem startIn_close (container : Style ℚ π) (hr : Carrying r p held) (he : p.endless = false)
    (hw : w.Balanced s (held + rest)) {st : Streams} (h : p.close container w = .ok (st, w'))
    {child : Streams} {u : Lasting} (hp : p.Plays s.toReading w.graph child u) :
    child.StartIn s.toReading w'.graph st u := by
  obtain ⟨x, y, rfl, _, _, rfl⟩ := hr
  obtain ⟨video, w₁, hv, h⟩ := bind_eq_ok.1 h
  obtain ⟨audio, w₂, ha, h⟩ := bind_eq_ok.1 h
  simp only at he h
  rw [he, if_neg Bool.false_ne_true] at h
  rw [add_assoc] at hw
  obtain ⟨⟨ov, hov, hw₁⟩, hgrow₁⟩ := moves_concat .video x _ _ _ _ hw hv
  have hw₁' := hw₁
  rw [add_left_comm] at hw₁'
  obtain ⟨⟨oa, hoa, hw₂⟩, hgrow₂⟩ := moves_concat .audio y _ _ _ _ hw₁' ha
  rw [← add_assoc] at hw₂
  have hst : CarryingStreams ⟨_, _⟩ ⟨video, audio⟩ (oa + ov) :=
    ⟨ov, oa, hov, hoa, add_comm oa ov⟩
  have hjoined : child.StartIn s.toReading w₂.graph ⟨video, audio⟩ u := by
    constructor
    · intro q hq
      obtain ⟨q', hq', hs⟩ := starts_concat hw hv (hp.1 q hq)
      exact ⟨q', hq', hs.grows hgrow₂⟩
    · intro q hq
      exact starts_concat hw₁' ha ((hp.2 q hq).grows hgrow₁)
  have hvideo := moves_closeVideo (s := s) (r := r) container (x.map Prod.fst) (y.map Prod.fst)
  have haudio := moves_closeAudio (s := s) (r := r) (x.map Prod.fst) (y.map Prod.fst)
  have hclosed := Streams.startIn_mapM hvideo haudio (startsAtOnce_closeVideo container)
    startsAtOnce_closeAudio hst hw₂ h
  have hgrow := (Streams.moves_mapM hvideo haudio hst _ _ _ _ hw₂ h).2
  simpa using (hjoined.grows hgrow).trans hclosed

variable [PixelCount π]

/-- The streams of a child start after what was there and the margin between. -/
theorem plays_add (hr : Carrying r p held) (hi : r.InStep t) (container child : Style ℚ π)
    (tag : Tag) {st : Streams} {c : Content Lasting} {x : Multiset (Pad × Lasting)}
    (hx : CarryingStreams c st x) (hw : w.Balanced s (x + held + rest))
    (h : p.add container child tag st w = .ok (p', w')) :
    p'.Plays s.toReading w'.graph st ↑(t + r.lead child) ∧
      Follows s.toReading p w.graph p' w'.graph := by
  obtain ⟨hvideos, haudios⟩ := hr.values (x + rest) (by rwa [add_left_comm, ← add_assoc])
  obtain ⟨xv, xa, hxv, hxa, rfl⟩ := hx
  have hlead : p.lead child = r.lead child := by
    rw [lead, Reel.lead, hr.pending]
  have hgap : p.videoGap = r.videoGap ∧ p.audioGap = r.audioGap := by
    obtain ⟨v, u, _, _, _, rfl⟩ := hr
    exact ⟨rfl, rfl⟩
  have hlead_nonneg := hi.lead_nonneg child
  -- the video of the child is added, then its sound
  obtain ⟨p₁, w₁, hv, h⟩ := bind_eq_ok.1 h
  obtain ⟨p₂, w₂, ha, h⟩ := bind_eq_ok.1 h
  obtain ⟨rfl, rfl⟩ := pure_eq_ok.1 h
  rw [hlead] at hv ha
  have hw₀ : w.Balanced s (xv + held + (xa + rest)) := by
    have hsum : xv + held + (xa + rest) = xv + xa + held + rest := by ac_rfl
    rwa [hsum]
  obtain ⟨⟨out, hr₁, hw₁⟩, hgrow₁⟩ := moves_addVideo container child tag _ _ hr hxv _ _ _ _ hw₀ hv
  rw [add_assoc] at hw₀
  obtain ⟨more, gap, rfl, hmore⟩ := starts_addVideo hxv hw₀ hv
    (hgap.1 ▸ add_nonneg hi.video.2 hlead_nonneg)
  have hw₁' : w₁.Balanced s (xa + out + rest) := by
    have hsum : xa + out + rest = out + (xa + rest) := by ac_rfl
    rwa [hsum]
  have hgrow₂ := (moves_addAudio _ _ hr₁ hxa _ _ _ _ hw₁' ha).2
  rw [add_assoc] at hw₁'
  obtain ⟨more', gap', rfl, hmore'⟩ := starts_addAudio hxa hw₁' ha
    (hgap.2 ▸ add_nonneg hi.audio.2 hlead_nonneg)
  have hgrow := hgrow₁.trans hgrow₂
  refine ⟨⟨?_, ?_⟩, ⟨more, rfl⟩, ⟨more', rfl⟩, hgrow⟩
  · intro q hq
    obtain ⟨seg, rfl, hseg⟩ := hmore q hq
    refine ⟨p.videos, seg, [], r.videos, _, rfl, Graph.mapM_value_grows hgrow hvideos,
      hseg.grows hgrow₂, ?_⟩
    rw [hgap.1, WithTop.coe_add, WithTop.coe_add, ← add_assoc, hi.video.1]
  · intro q hq
    obtain ⟨seg, rfl, hseg⟩ := hmore' q hq
    refine ⟨p.audios, seg, [], r.audios, _, rfl, Graph.mapM_value_grows hgrow haudios, hseg, ?_⟩
    rw [hgap.2, WithTop.coe_add, WithTop.coe_add, ← add_assoc, hi.audio.1]

end Playlist

open Compile in
/-- Every child of a sequence starts on both sides at its time, and both sides come to the end. -/
theorem SequenceRun.plays [PixelCount π] {law : OverlayLaw} {s : Studio Lasting ℚ π}
    (hs : s.filter = Filter.lasting law)
    {tag : Tag} {container : Style ℚ π} {p p' : Playlist ℚ} {w w' : Workshop ℚ π}
    {calls : List (Call ℚ π)} (h : SequenceRun tag container p w calls p' w')
    (hheard : ∀ c ∈ calls, c.node.Heard s) (htimed : ∀ c ∈ calls, c.node.style.IsTimed)
    (hlast : ∀ c ∈ calls, c.streams.Last s.toReading c.after.graph ↑c.node.style.paddedTime)
    {r : Reel Lasting ℚ} {t : ℚ} {held rest : Multiset (Pad × Lasting)}
    (hr : Playlist.Carrying r p held) (hi : r.InStep t) (hw : w.Balanced s (held + rest)) :
    ∃ r' held' t', Playlist.Carrying r' p' held' ∧ w'.Balanced s (held' + rest) ∧ r'.InStep t' ∧
      t' + r'.pending = Timeline.endAfter t r.pending (calls.map fun c => c.node.style) ∧
      Playlist.Follows s.toReading p w.graph p' w'.graph ∧
      List.Forall₂ (fun c (u : ℚ) => p'.Plays s.toReading w'.graph c.streams ↑u) calls
        (Timeline.onsetsAfter t r.pending (calls.map fun c => c.node.style)) := by
  induction h generalizing r t held with
  | done => exact ⟨r, held, t, hr, hw, hi, rfl, .refl _, .nil⟩
  | @next p p₁ p' w₁ w' c calls hc hp hrun ih =>
      obtain ⟨⟨x, ⟨d, _, hx⟩, hw₁⟩, hgrow⟩ :=
        Scene.moves_compile c.node (hheard c List.mem_cons_self) _ _ _ (held + rest)
          (by rwa [zero_add]) hc
      have hd : d.Lasts ↑c.node.style.paddedTime :=
        (hx.carry hw₁).last_iff.1 (hlast c List.mem_cons_self)
      rw [← add_assoc] at hw₁
      have hstyle := htimed c List.mem_cons_self
      obtain ⟨⟨held₁, hr₁, hw₂⟩, _⟩ := Playlist.moves_add container _ tag hr hx _ _ _ rest hw₁ hp
      obtain ⟨hplays, hfollows⟩ := Playlist.plays_add hr hi container _ tag hx hw₁ hp
      obtain ⟨r', held', t', hr', hw', hi', hend, hfollows', hrest⟩ :=
        ih (fun c hc => hheard c (List.mem_cons_of_mem _ hc))
          (fun c hc => htimed c (List.mem_cons_of_mem _ hc))
          (fun c hc => hlast c (List.mem_cons_of_mem _ hc)) hr₁ (hi.add hs container hstyle hd) hw₂
      refine ⟨r', held', t', hr', hw', hi', ?_, ?_, ?_⟩
      · rw [hend, List.map_cons, Timeline.endAfter, Timeline.endFrom_eq]
        rfl
      · exact .trans ⟨List.prefix_rfl, List.prefix_rfl, hgrow⟩ (hfollows.trans hfollows')
      · rw [List.map_cons, Timeline.onsetsAfter, Timeline.onsetsFrom_eq]
        exact .cons (hplays.follow hfollows') hrest

/-- How a sequence is compiled: its children are added by calls, the whole is closed, brought to its
length, and padded. -/
structure Sequencing [PixelCount π] (call : Call ℚ π) (tag : Tag) (style : Style ℚ π)
    (items : List (Scene ℚ π)) where
  calls : List (Call ℚ π)
  playlist : Playlist ℚ
  filled : Workshop ℚ π
  joined : Streams
  closed : Workshop ℚ π
  sized : Streams
  finished : Workshop ℚ π
  nodes : calls.map Call.node = items
  run : SequenceRun tag style .start call.before calls playlist filled
  close : playlist.close style filled = .ok (joined, closed)
  size : Playlist.size style joined closed = .ok (sized, finished)
  pad : sized.padded style finished = .ok (call.streams, call.after)

namespace Sequencing

open Compile

variable [PixelCount π] {call : Call ℚ π} {tag : Tag} {style : Style ℚ π}
  {items : List (Scene ℚ π)}

/-- Every sequence without open children is compiled so. -/
theorem exists_of_made (h : call.Made) (hn : call.node = .container tag style items)
    (ho : style.order = .sequence) (hfit : ∀ i ∈ items, i.style.objectLength.isFit = false) :
    Nonempty (Sequencing call tag style items) := by
  unfold Call.Made at h
  rw [hn, compileScene, ho] at h
  obtain ⟨playlist, filled, hrun, h⟩ := bind_eq_ok.1 h
  obtain ⟨sized, finished, hfinish, hpad⟩ := bind_eq_ok.1 h
  rw [Playlist.finish_eq] at hfinish
  obtain ⟨joined, closed, hclose, hsize⟩ := bind_eq_ok.1 hfinish
  obtain ⟨calls, hrun, hnodes⟩ := exists_sequenceRun hfit hrun
  exact ⟨⟨calls, playlist, filled, joined, closed, sized, finished, hnodes, hrun, hclose, hsize,
    hpad⟩⟩

theorem visits (q : Sequencing call tag style items) (hn : call.node = .container tag style items)
    (ho : style.order = .sequence) (hfit : ∀ i ∈ items, i.style.objectLength.isFit = false) :
    ∀ c ∈ q.calls, Visits call.node call.before c := by
  intro c hc
  rw [hn]
  have hvisits := q.run.visits (fun c hc => hfit _ (q.nodes ▸ List.mem_map_of_mem hc)) c hc
  rw [q.nodes] at hvisits
  exact .sequence ho hvisits

variable {law : OverlayLaw} {s : Studio Lasting ℚ π} {rest : Multiset (Pad × Lasting)}

/-- The children start in step, and the whole is as long as the sum over the children says. -/
theorem synced (q : Sequencing call tag style items) (hs : s.filter = Filter.lasting law)
    (hheard : ∀ i ∈ items, i.Heard s) (ht : ∀ i ∈ items, i.style.IsTimed)
    (hw : call.before.Balanced s rest)
    (hlast : ∀ c ∈ q.calls, c.streams.Last s.toReading c.after.graph ↑c.node.style.paddedTime) :
    List.Forall₂ (fun c (t : ℚ) => c.streams.StartIn s.toReading q.closed.graph q.joined ↑t) q.calls
        (Timeline.onsets (items.map Scene.style)) ∧
      ∃ c out, CarryingStreams c q.joined out ∧ q.closed.Balanced s (out + rest) ∧
        c.Lasts ↑(Timeline.total (items.map Scene.style)) := by
  have hmem : ∀ c ∈ q.calls, c.node ∈ items := by
    intro c hc
    exact q.nodes ▸ List.mem_map_of_mem hc
  have hstyles : q.calls.map (fun c => c.node.style) = items.map Scene.style := by
    have hnodes := congrArg (List.map Scene.style) q.nodes
    rwa [List.map_map] at hnodes
  have hknown : ∀ st ∈ items.map Scene.style, st.IsTimed := by
    intro st hst
    obtain ⟨i, hi, rfl⟩ := List.mem_map.1 hst
    exact ht i hi
  have hstart : call.before.Balanced s (0 + rest) := by
    rwa [zero_add]
  obtain ⟨r, held, t, hr, hw', hi, hend, _, hplays⟩ :=
    q.run.plays hs (fun c hc => hheard _ (hmem c hc)) (fun c hc => ht _ (hmem c hc)) hlast
      Playlist.carrying_start Reel.inStep_start hstart
  have hendless : q.playlist.endless = false := by
    obtain ⟨v, u, _, _, _, hp⟩ := hr
    rw [hp]
    exact hi.endless
  obtain ⟨⟨out, hout, hclosed⟩, _⟩ := Playlist.moves_close style hr _ _ _ rest hw' q.close
  rw [hstyles] at hend hplays
  constructor
  · rw [Timeline.onsets_eq fun style hs => (hknown style hs).marginStart.nonneg]
    exact hplays.imp fun c u hp => Playlist.startIn_close style hr hendless hw' q.close hp
  · refine ⟨_, out, hout, hclosed, ?_⟩
    have hlasts := hi.close hs style
    rwa [hend, Reel.start, ← Timeline.total_eq hknown] at hlasts

/-- A sequence that is as long as its style says is not changed by being brought to that length. -/
theorem sized_same (q : Sequencing call tag style items) (hs : s.filter = Filter.lasting law) {t : ℚ}
    (h0 : 0 ≤ t) (hl : style.objectLength = .seconds t) {c : Content Lasting}
    {out : Multiset (Pad × Lasting)} (hc : CarryingStreams c q.joined out)
    (hw : q.closed.Balanced s (out + rest)) (ht : c.Lasts ↑t) :
    q.sized.Last s.toReading q.finished.graph ↑t ∧
      q.joined.StartIn s.toReading q.finished.graph q.sized 0 := by
  have hsize := q.size
  unfold Playlist.size at hsize
  rw [hl] at hsize
  constructor
  · obtain ⟨⟨out', hout, hw'⟩, _⟩ := Streams.moves_conform t _ hc _ _ _ rest hw hsize
    refine (hout.carry hw').last_iff.2 ?_
    rwa [Timed.conform_same hs h0 _ ht]
  · exact Streams.startIn_conform t _ hc hw hsize

end Sequencing

/-- In every sequence of a scene whose children have known lengths, each child starts at its time in
the joined video as in the joined audio, both end with the last margin, and that is the length by
which an open style is settled; at that length nothing is cut and nothing is added. -/
theorem Visits.sequence_synced [PixelCount π] (clock : Clock) (law : OverlayLaw) (frame : Frame ℚ)
    (sampleRate : Nat) {root : Scene ℚ π} {call : Call ℚ π} (h : Visits root (.start frame sampleRate) call) {tag : Tag}
    {style : Style ℚ π} {items : List (Scene ℚ π)} (hn : call.node = .container tag style items)
    (ho : style.order = .sequence) (hne : items ≠ []) (ht : ∀ i ∈ items, i.style.IsTimed) :
    let r := (Studio.timed clock law frame sampleRate : Studio Lasting ℚ π).toReading
    let styles := items.map Scene.style
    let total := Timeline.total styles
    ∃ q : Sequencing call tag style items,
      (∀ c ∈ q.calls, c.streams.Last r c.after.graph ↑c.node.style.paddedTime) →
        List.Forall₂ (fun c (t : ℚ) => c.streams.StartIn r q.closed.graph q.joined ↑t) q.calls
            (Timeline.onsets styles) ∧
          q.joined.Last r q.closed.graph ↑total ∧
          sequenceLength styles = .seconds total ∧
          (style.objectLength = sequenceLength styles →
            q.sized.Last r q.finished.graph ↑total ∧
              q.joined.StartIn r q.finished.graph q.sized 0) := by
  intro r styles total
  let s : Studio Lasting ℚ π := .timed clock law frame sampleRate
  have hheard : ∀ scene : Scene ℚ π, scene.Heard s := fun _ _ _ _ _ _ _ _ => trivial
  have hknown : ∀ st ∈ styles, st.IsTimed := by
    intro st hst
    obtain ⟨i, hi, rfl⟩ := List.mem_map.1 hst
    exact ht i hi
  have hlength : sequenceLength styles = .seconds total :=
    Timeline.sequenceLength_eq (by simpa [styles] using hne) hknown
  obtain ⟨rest, hw⟩ := h.balanced (hheard root) 0 (Workshop.balanced_start s)
  obtain ⟨q⟩ := Sequencing.exists_of_made h.made hn ho fun i hi => (ht i hi).object.isFit
  refine ⟨q, ?_⟩
  intro hlast
  obtain ⟨hstarts, c, out, hc, hw', hlasts⟩ :=
    q.synced rfl (fun i _ => hheard i) ht hw hlast
  refine ⟨hstarts, (hc.carry hw').last_iff.2 hlasts, hlength, ?_⟩
  intro hstyle
  exact q.sized_same rfl (Timeline.total_nonneg hknown) (hstyle.trans hlength) hc hw' hlasts

/-- A song between two texts. -/
def songStyle (length start stop : ℚ) : Style ℚ Int :=
  { Style.initial with
    objectLength := .seconds length
    timeMarginStart := .seconds start
    timeMarginEnd := .seconds stop
    width := .pixel 320
    height := .pixel 180
    source := ⟨some 5, none, none, true, none⟩ }

def songItems : List (Scene ℚ Int) :=
  [.leaf .txt .text (.text "now") (songStyle 2 1 3),
    .leaf .aud .audio (.path ⟨"song.mp3"⟩) (songStyle 4 2 0),
    .leaf .txt .text (.text "then") (songStyle 2 1 1)]

def song : Scene ℚ Int :=
  .container .seq (songStyle 14 0 0) songItems

theorem songItems_isTimed : ∀ i ∈ songItems, i.style.IsTimed := by
  have hstyle : ∀ length start stop : ℚ, 0 ≤ length → 0 ≤ start → 0 ≤ stop →
      (songStyle length start stop).IsTimed := by
    intro length start stop h h' h''
    exact ⟨⟨⟨start, rfl, h'⟩, ⟨stop, rfl, h''⟩, ⟨0, rfl, le_rfl⟩, ⟨0, rfl, le_rfl⟩⟩, length, rfl, h⟩
  intro i hi
  simp only [songItems, List.mem_cons, List.not_mem_nil, or_false] at hi
  rcases hi with rfl | rfl | rfl <;> exact hstyle _ _ _ (by decide) (by decide) (by decide)

theorem Denotes.lasts_song {law : OverlayLaw} {s : Studio Lasting ℚ Int} (hs : s.filter = Filter.lasting law)
    (hsong : ∀ i kind, s.input i kind = 5) {item : Scene ℚ Int} {c : Content Lasting}
    (h : Denotes s item c) (hi : item ∈ songItems) : c.Lasts ↑item.style.paddedTime := by
  have ht := songItems_isTimed item hi
  simp only [songItems, List.mem_cons, List.not_mem_nil, or_false] at hi
  rcases hi with rfl | rfl | rfl
  · exact h.leaf_lasts hs ⟨by simp, by simp⟩ ht
  · refine h.leaf_lasts hs ⟨by simp, ?_⟩ ht
    rintro path ⟨⟩ _
    refine ⟨5, rfl, fun k => hsong _ k, ?_⟩
    rintro t ⟨⟩
    exact Or.inl (by decide)
  · exact h.leaf_lasts hs ⟨by simp, by simp⟩ ht

theorem Visits.sequence_synced_song :
    let s : Studio Lasting ℚ Int :=
      .timed (fun _ _ _ => 5) max ⟨⟨320, 180⟩, 25⟩ 48000
    ∃ (call : Call ℚ Int) (q : Sequencing call .seq (songStyle 14 0 0) songItems),
      List.Forall₂ (fun c (t : ℚ) => c.streams.StartIn s.toReading q.closed.graph q.joined ↑t)
          q.calls [1, 6, 11] ∧
        q.joined.Last s.toReading q.closed.graph 14 ∧
        q.sized.Last s.toReading q.finished.graph 14 := by
  intro s
  have hok : (compileScene song (.start s.frame s.sampleRate)).toOption.isSome = true := by
    decide +kernel
  cases h : compileScene song (.start s.frame s.sampleRate) with
  | error e =>
      rw [h] at hok
      cases hok
  | ok result =>
      let call : Call ℚ Int := ⟨song, .start s.frame s.sampleRate, result.1, result.2⟩
      have hcall : Visits song (.start s.frame s.sampleRate) call := .self (c := call) h
      obtain ⟨q, hq⟩ := hcall.sequence_synced (fun _ _ _ => 5) max _ _ rfl rfl (by simp [songItems])
        songItems_isTimed
      have hlast : ∀ c ∈ q.calls,
          c.streams.Last s.toReading c.after.graph ↑c.node.style.paddedTime := by
        intro c hc
        have hnode : c.node ∈ songItems := q.nodes ▸ List.mem_map_of_mem hc
        have hvisits := q.visits rfl rfl (fun i hi => (songItems_isTimed i hi).object.isFit) c hc
        obtain ⟨d, hd, hcarry⟩ := hvisits.denotes (s := s) fun _ _ _ _ _ _ _ => trivial
        refine hcarry.last_iff.2 (hd.lasts_song rfl (fun _ _ => rfl) hnode)
      have honsets : Timeline.onsets (songItems.map Scene.style) = [1, 6, 11] := by
        decide +kernel
      have htotal : Timeline.total (songItems.map Scene.style) = 14 := by
        decide +kernel
      obtain ⟨hstarts, hjoined, hlength, hsized⟩ := hq hlast
      rw [honsets] at hstarts
      rw [htotal] at hjoined hlength hsized
      exact ⟨call, q, hstarts, hjoined, (hsized hlength.symm).1⟩

end Montage
