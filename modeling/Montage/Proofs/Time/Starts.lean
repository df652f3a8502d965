import Mathlib.Algebra.Order.Ring.Rat
import Montage.Proofs.Compile.Visits
import Montage.Proofs.Time.Lasting

/-!
# Where streams start in others

A stream that is led through filters starts in what comes out of them: after a gap, after the
segments before it, or at once.

**Input.** A graph, and how long its streams last.

**Algorithm.** Along a path of filters the times add up.

**Results.**
* `Compile.starts_join`: where the inputs of a new filter start in its output.
* `Playlist.starts_addVideo`, `Playlist.starts_addAudio`: the content of a child starts in its segment
  after the gap before it.
* `Playlist.starts_concat`: a segment starts after those before it.
-/

namespace Montage

/-- How long after the start of its output an input of a filter starts, by how long the inputs before
it last. -/
def Filter.onset {π : Type} : Filter ℚ π → List Lasting → Option Lasting
  | .holdBefore t _, _ => some t
  | .delay t, _ => some t
  | .concat _ _, before => some before.sum
  | .seek _, _ => none
  | .makePalette, _ => none
  | _, _ => some 0

variable {π : Type}

/-- The stream of a pad starts in the stream of another, so long after its start. -/
inductive Graph.Starts (r : Reading Lasting ℚ π) (g : Graph (Filter ℚ π)) (p : Pad) :
    Pad → Lasting → Prop
  | self : Starts r g p p 0
  | through {q q' : Pad} {t u : Lasting} {stage : Stage (Filter ℚ π)} {before after : List Pad}
      {as : List Lasting} (h : Starts r g p q t) (hs : stage ∈ g.stages)
      (hi : stage.inputs = before ++ q :: after) (ho : q' ∈ stage.outputs)
      (hb : before.mapM (g.value r) = some as) (hu : stage.filter.onset as = some u) :
      Starts r g p q' (u + t)

namespace Graph

variable {r : Reading Lasting ℚ π} {g g' : Graph (Filter ℚ π)} {p q : Pad} {t : Lasting}

/-- Where a stream starts stays so while the graph grows. -/
theorem Starts.grows (h : g.Starts r p q t) (hg : g.Grows r g') : g'.Starts r p q t := by
  induction h with
  | self => exact .self
  | through _ hs hi ho hb hu ih =>
      exact .through ih (hg.mem_stages hs) hi ho (mapM_value_grows hg hb) hu

/-- What starts in a stream starts in whatever that stream starts in. -/
theorem Starts.trans {q' : Pad} {u : Lasting} (h : g.Starts r p q t) (h' : g.Starts r q q' u) :
    g.Starts r p q' (u + t) := by
  induction h' with
  | self => simpa using h
  | through _ hs hi ho hb hu ih =>
      rw [add_assoc]
      exact .through ih hs hi ho hb hu

end Graph

namespace Compile

variable {s : Studio Lasting ℚ π} {w w' : Workshop ℚ π}

/-- Where the inputs of a new filter start in its output. -/
theorem starts_join (before after : List (Pad × Lasting)) {x : Pad × Lasting} {kind : StreamKind}
    {filter : Filter ℚ π} {q : Pad} {u : Lasting} {rest : Multiset (Pad × Lasting)}
    (hw : w.Balanced s (↑(before ++ x :: after) + rest))
    (h : join kind ((before ++ x :: after).map Prod.fst) filter w = .ok (q, w'))
    (hu : filter.onset (before.map Prod.snd) = some u) :
    w'.graph.Starts s.toReading x.1 q u := by
  have hgrow := (moves_join (before ++ x :: after) kind filter w w' q rest hw h).2
  have hbefore : (before.map Prod.fst).mapM (w.graph.value s.toReading) =
      some (before.map Prod.snd) := by
    apply Reading.mapM_values
    intro y hy
    exact hw.values y (Multiset.mem_add.2 (Or.inl (Multiset.mem_coe.2
      (List.mem_append_left _ hy))))
  cases h
  have hstart := Graph.Starts.through (r := s.toReading) .self
    (List.mem_append_right _ (List.mem_singleton_self _)) (List.map_append ..) List.mem_cons_self
    (Graph.mapM_value_grows hgrow hbefore) hu
  simpa using hstart

theorem starts_apply {p q : Pad} {a u : Lasting} {kind : StreamKind} {filter : Filter ℚ π}
    {rest : Multiset (Pad × Lasting)} (hw : w.Balanced s ({(p, a)} + rest))
    (h : apply kind filter p w = .ok (q, w')) (hu : filter.onset [] = some u) :
    w'.graph.Starts s.toReading p q u :=
  starts_join [] [] hw h hu

end Compile

namespace Graph

/-- The stream of a pad starts in the streams of others that are joined end to end, so long after the
start of the first. -/
def StartsAmong (r : Reading Lasting ℚ π) (g : Graph (Filter ℚ π)) (p : Pad) (pads : List Pad)
    (t : Lasting) : Prop :=
  ∃ before q after as u, pads = before ++ q :: after ∧ before.mapM (g.value r) = some as ∧
    g.Starts r p q u ∧ t = as.sum + u

variable {r : Reading Lasting ℚ π} {g g' : Graph (Filter ℚ π)} {p : Pad} {pads : List Pad}
  {t : Lasting}

theorem StartsAmong.grows (h : g.StartsAmong r p pads t) (hg : g.Grows r g') :
    g'.StartsAmong r p pads t := by
  obtain ⟨before, q, after, as, u, hp, hb, hs, ht⟩ := h
  exact ⟨before, q, after, as, u, hp, mapM_value_grows hg hb, hs.grows hg, ht⟩

/-- Pads that come later change nothing. -/
theorem StartsAmong.append (h : g.StartsAmong r p pads t) (more : List Pad) :
    g.StartsAmong r p (pads ++ more) t := by
  obtain ⟨before, q, after, as, u, rfl, hb, hs, ht⟩ := h
  exact ⟨before, q, after ++ more, as, u, by simp, hb, hs, ht⟩

end Graph

/-- The streams that are there start in those of others, so long after their start. -/
def Streams.StartIn (r : Reading Lasting ℚ π) (g : Graph (Filter ℚ π)) (st whole : Streams)
    (t : Lasting) : Prop :=
  (∀ p ∈ st.video, ∃ q ∈ whole.video, g.Starts r p q t) ∧
    ∀ p ∈ st.audio, ∃ q ∈ whole.audio, g.Starts r p q t

namespace Streams

open Compile

section

variable {r : Reading Lasting ℚ π} {g g' : Graph (Filter ℚ π)} {st st' st'' : Streams} {t u : Lasting}

theorem StartIn.grows (h : st.StartIn r g st' t) (hg : g.Grows r g') : st.StartIn r g' st' t := by
  constructor
  · intro p hp
    obtain ⟨q, hq, hs⟩ := h.1 p hp
    exact ⟨q, hq, hs.grows hg⟩
  · intro p hp
    obtain ⟨q, hq, hs⟩ := h.2 p hp
    exact ⟨q, hq, hs.grows hg⟩

theorem StartIn.trans (h : st.StartIn r g st' t) (h' : st'.StartIn r g st'' u) :
    st.StartIn r g st'' (u + t) := by
  constructor
  · intro p hp
    obtain ⟨q, hq, hs⟩ := h.1 p hp
    obtain ⟨q', hq', hs'⟩ := h'.1 q hq
    exact ⟨q', hq', hs.trans hs'⟩
  · intro p hp
    obtain ⟨q, hq, hs⟩ := h.2 p hp
    obtain ⟨q', hq', hs'⟩ := h'.2 q hq
    exact ⟨q', hq', hs.trans hs'⟩

end

variable {s : Studio Lasting ℚ π} {w w' : Workshop ℚ π}

/-- A step gives a stream in which the one that it takes starts at once. -/
def StartsAtOnce (s : Studio Lasting ℚ π) (f : Pad → Compile ℚ π Pad) : Prop :=
  ∀ p a w w' q rest, w.Balanced s ({(p, a)} + rest) → f p w = .ok (q, w') →
    w'.graph.Starts s.toReading p q 0

theorem startsAtOnce_twice {kind : StreamKind} {first second : Filter ℚ π}
    (h : first.onset [] = some 0) (h' : second.onset [] = some 0) :
    StartsAtOnce s fun p => Compile.apply kind first p >>= Compile.apply kind second := by
  intro p a w w' q rest hw hc
  obtain ⟨q₁, w₁, hc₁, hc⟩ := bind_eq_ok.1 hc
  obtain ⟨⟨_, rfl, hw₁⟩, -⟩ := Compile.moves_apply p a kind first _ _ _ _ hw hc₁
  have hgrow := (Compile.moves_apply q₁ _ kind second _ _ _ _ hw₁ hc).2
  have hstart := ((starts_apply hw hc₁ h).grows hgrow).trans (starts_apply hw₁ hc h')
  rwa [add_zero] at hstart

theorem starts_option {f : Pad → Compile ℚ π Pad} (hf : StartsAtOnce s f) {p q : Option Pad}
    {a : Option Lasting} {x rest : Multiset (Pad × Lasting)} (hx : CarryingOption a p x)
    (hw : w.Balanced s (x + rest)) (h : p.mapM f w = .ok (q, w')) :
    ∀ v ∈ p, ∃ v' ∈ q, w'.graph.Starts s.toReading v v' 0 := by
  obtain ⟨x, rfl, rfl, rfl⟩ := hx
  cases x with
  | none => simp
  | some x =>
      rw [Option.map_some, Option.mapM_some, map_eq_pure_bind] at h
      obtain ⟨q', w₁, hc, h⟩ := bind_eq_ok.1 h
      obtain ⟨rfl, rfl⟩ := pure_eq_ok.1 h
      rintro _ ⟨⟩
      exact ⟨q', rfl, hf _ x.2 _ _ _ rest hw hc⟩

theorem startIn_mapM {f g : Pad → Compile ℚ π Pad} {onVideo onAudio : Lasting → Lasting}
    (hf : ∀ p a, Moves s (f p) {(p, a)} (Carrying (onVideo a)))
    (hg : ∀ p a, Moves s (g p) {(p, a)} (Carrying (onAudio a)))
    (hf' : StartsAtOnce s f) (hg' : StartsAtOnce s g) {c : Content Lasting} {st st' : Streams}
    {x rest : Multiset (Pad × Lasting)} (hx : CarryingStreams c st x)
    (hw : w.Balanced s (x + rest)) (h : st.mapM f g w = .ok (st', w')) :
    st.StartIn s.toReading w'.graph st' 0 := by
  obtain ⟨xv, xa, hxv, hxa, rfl⟩ := hx
  obtain ⟨video, w₁, hv, h⟩ := bind_eq_ok.1 h
  obtain ⟨audio, w₂, ha, h⟩ := bind_eq_ok.1 h
  obtain ⟨rfl, rfl⟩ := pure_eq_ok.1 h
  rw [add_assoc] at hw
  obtain ⟨⟨out, _, hw₁⟩, -⟩ := Compile.moves_mapM hf hxv _ _ _ _ hw hv
  rw [add_left_comm] at hw₁
  have hgrow := (Compile.moves_mapM hg hxa _ _ _ _ hw₁ ha).2
  constructor
  · intro p hp
    obtain ⟨q, hq, hs⟩ := starts_option hf' hxv hw hv p hp
    exact ⟨q, hq, hs.grows hgrow⟩
  · exact starts_option hg' hxa hw₁ ha

/-- What is conformed starts at once. -/
theorem startIn_conform (length : ℚ) (color : Option Color) {c : Content Lasting}
    {st st' : Streams} {x rest : Multiset (Pad × Lasting)} (hx : CarryingStreams c st x)
    (hw : w.Balanced s (x + rest)) (h : st.conform length color w = .ok (st', w')) :
    st.StartIn s.toReading w'.graph st' 0 :=
  startIn_mapM (fun p a => moves_twice p a .video _ _) (fun p a => moves_twice p a .audio _ _)
    (startsAtOnce_twice rfl rfl) (startsAtOnce_twice rfl rfl) hx hw h

end Streams

namespace Playlist

open Compile

variable {s : Studio Lasting ℚ π} {w w' : Workshop ℚ π} {p p' : Playlist ℚ}

/-- A segment that stands alone is not joined. -/
theorem concat_around (kind : StreamKind) (before after : List Pad) (q : Pad) :
    (concat kind (before ++ q :: after) : Compile ℚ π (Option Pad)) =
      if before = [] ∧ after = [] then pure (some q) else
        some <$> join kind (before ++ q :: after) (.concat (before ++ q :: after).length kind) := by
  match before, after with
  | [], [] => rfl
  | [], _ :: _ => rfl
  | [_], after => cases after <;> rfl
  | _ :: _ :: _, after => rfl

/-- What starts in a segment starts in the segments joined end to end. -/
theorem starts_concat {kind : StreamKind} {x : List (Pad × Lasting)} {q : Option Pad} {v : Pad}
    {t : Lasting} {rest : Multiset (Pad × Lasting)} (hw : w.Balanced s (↑x + rest))
    (h : concat kind (x.map Prod.fst) w = .ok (q, w'))
    (hv : w.graph.StartsAmong s.toReading v (x.map Prod.fst) t) :
    ∃ q' ∈ q, w'.graph.Starts s.toReading v q' t := by
  obtain ⟨before, seg, after, as, u, hx, hb, hs, rfl⟩ := hv
  obtain ⟨xb, xs, rfl, rfl, hxs⟩ := List.map_eq_append_iff.1 hx
  obtain ⟨⟨_, b⟩, xa, rfl, rfl, rfl⟩ := List.map_eq_cons_iff.1 hxs
  have has : as = xb.map Prod.snd := by
    have hvalues : (xb.map Prod.fst).mapM (w.graph.value s.toReading) = some (xb.map Prod.snd) := by
      apply Reading.mapM_values
      intro y hy
      exact hw.values y (Multiset.mem_add.2 (Or.inl (Multiset.mem_coe.2
        (List.mem_append_left _ hy))))
    exact Option.some.inj (hb.symm.trans hvalues)
  subst has
  have hgrow := (moves_concat kind _ w w' q rest hw h).2
  rw [List.map_append, List.map_cons, concat_around] at h
  split at h
  · next hone =>
      obtain ⟨rfl, rfl⟩ := pure_eq_ok.1 h
      refine ⟨_, rfl, ?_⟩
      simpa [List.map_eq_nil_iff.1 hone.1] using hs
  · rw [map_eq_pure_bind] at h
    obtain ⟨q', w₁, hj, h⟩ := bind_eq_ok.1 h
    obtain ⟨rfl, rfl⟩ := pure_eq_ok.1 h
    rw [← List.map_cons (f := Prod.fst), ← List.map_append] at hj
    exact ⟨q', rfl, (hs.grows hgrow).trans (starts_join _ _ hw hj rfl)⟩

/-- The sound of a child starts in its segment after the gap before it. -/
theorem starts_addAudio {lead footprint : ℚ} {audio : Option Pad} {a : Option Lasting}
    {x rest : Multiset (Pad × Lasting)} (hx : CarryingOption a audio x)
    (hw : w.Balanced s (x + rest)) (h : p.addAudio lead footprint audio w = .ok (p', w'))
    (hg : 0 ≤ p.audioGap + lead) :
    ∃ more gap, p' = { p with audios := p.audios ++ more, audioGap := gap } ∧
      ∀ v ∈ audio, ∃ q, more = [q] ∧ w'.graph.Starts s.toReading v q ↑(p.audioGap + lead) := by
  obtain ⟨x, rfl, rfl, rfl⟩ := hx
  cases x with
  | none =>
      obtain ⟨rfl, rfl⟩ := pure_eq_ok.1 h
      exact ⟨[], p.audioGap + footprint, by simp, by simp⟩
  | some x =>
      unfold addAudio at h
      simp only [Option.map_some] at h
      split at h
      · obtain ⟨q, w₁, hq, h⟩ := bind_eq_ok.1 h
        obtain ⟨rfl, rfl⟩ := pure_eq_ok.1 h
        refine ⟨[q], 0, rfl, ?_⟩
        rintro _ ⟨⟩
        exact ⟨q, rfl, starts_apply hw hq rfl⟩
      · next hpos =>
          obtain ⟨rfl, rfl⟩ := pure_eq_ok.1 h
          refine ⟨[x.1], 0, rfl, ?_⟩
          rintro _ ⟨⟩
          rw [le_antisymm (not_lt.1 hpos) hg]
          exact ⟨x.1, rfl, .self⟩

theorem startsAtOnce_closeVideo (container : Style ℚ π) :
    Streams.StartsAtOnce s (p.closeVideo container) := by
  intro v a w w' q rest hw h
  unfold closeVideo at h
  split at h
  · exact starts_apply hw h rfl
  · obtain ⟨rfl, rfl⟩ := pure_eq_ok.1 h
    exact .self

theorem startsAtOnce_closeAudio :
    Streams.StartsAtOnce s (p.closeAudio : Pad → Compile ℚ π Pad) := by
  intro v a w w' q rest hw h
  unfold closeAudio at h
  split at h
  · exact starts_apply hw h rfl
  · obtain ⟨rfl, rfl⟩ := pure_eq_ok.1 h
    exact .self

variable [PixelCount π]

/-- The video of a child starts in its segment after the gap before it. -/
theorem starts_addVideo {container child : Style ℚ π} {tag : Tag} {lead footprint : ℚ}
    {video : Option Pad} {a : Option Lasting} {x rest : Multiset (Pad × Lasting)}
    (hx : CarryingOption a video x) (hw : w.Balanced s (x + rest))
    (h : p.addVideo container child tag lead footprint video w = .ok (p', w'))
    (hg : 0 ≤ p.videoGap + lead) :
    ∃ more gap, p' = { p with videos := p.videos ++ more, videoGap := gap } ∧
      ∀ v ∈ video, ∃ q, more = [q] ∧ w'.graph.Starts s.toReading v q ↑(p.videoGap + lead) := by
  obtain ⟨x, rfl, rfl, rfl⟩ := hx
  cases x with
  | none =>
      obtain ⟨rfl, rfl⟩ := pure_eq_ok.1 h
      exact ⟨[], p.videoGap + footprint, by simp, by simp⟩
  | some x =>
      obtain ⟨base, w₁, hb, h⟩ := bind_eq_ok.1 h
      obtain ⟨⟨out, hbase, hw₁⟩, -⟩ := Leaf.moves_canvas tag container w w₁ base
        ({x} + rest) (by rwa [zero_add]) hb
      cases hbase
      obtain ⟨placed, w₂, hp, h⟩ := bind_eq_ok.1 (counted_bind_eq_ok.1 h).2
      have hw₁' : w₁.Balanced s (↑([(base, s.board container)] ++ x :: []) + rest) := by
        rw [← add_assoc] at hw₁
        exact hw₁
      have hplaced := starts_join _ _ hw₁' hp rfl
      obtain ⟨⟨out, hout, hw₂⟩, -⟩ := moves_join _ _ _ w₁ w₂ placed rest hw₁' hp
      cases hout
      simp only at h
      split at h
      · obtain ⟨q, w₃, hq, h⟩ := bind_eq_ok.1 h
        obtain ⟨rfl, rfl⟩ := pure_eq_ok.1 h
        have hgrow := (moves_apply placed _ _ _ w₂ w' q rest hw₂ hq).2
        refine ⟨[q], 0, rfl, ?_⟩
        rintro _ ⟨⟩
        refine ⟨q, rfl, ?_⟩
        simpa using (hplaced.grows hgrow).trans (starts_apply hw₂ hq rfl)
      · next hpos =>
          obtain ⟨rfl, rfl⟩ := pure_eq_ok.1 h
          refine ⟨[placed], 0, rfl, ?_⟩
          rintro _ ⟨⟩
          rw [le_antisymm (not_lt.1 hpos) hg]
          exact ⟨placed, rfl, hplaced⟩

end Playlist
end Montage
