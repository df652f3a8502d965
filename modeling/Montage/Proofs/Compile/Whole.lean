import Montage.Compile.Film
import Montage.Proofs.Compile.Meaning

/-!
# What films carry

A document compiled as a whole: its streams on the screen, and the graph in which every spare is
drained.

**Input.** The scene of a document.

**Algorithm.** The content of the scene is put on the screen, held over its margins, and joined into
a pair. The spares are drained in any order.

**Results.**
* `Workshop.Sound.finish`: when the spares are drained, only what is at hand is free.
* `Film.moves_streams`: the streams of a film carry what the scene denotes, on the screen.
-/

namespace Montage

variable {α τ π : Type}

theorem insertByLabel_perm (p : Pad) (pads : List Pad) : (insertByLabel p pads).Perm (p :: pads) := by
  induction pads with
  | nil => exact List.Perm.refl _
  | cons q pads ih =>
      rw [insertByLabel]
      split
      · exact List.Perm.refl _
      · exact (ih.cons q).trans (List.Perm.swap p q pads)

theorem sortByLabel_perm (pads : List Pad) : (sortByLabel pads).Perm pads := by
  induction pads with
  | nil => exact List.Perm.refl _
  | cons p pads ih => exact (insertByLabel_perm p _).trans (ih.cons p)

namespace Workshop

variable {free : Multiset Pad}

/-- Draining pads takes them out of the free ones. -/
theorem linear_drain (r : Reading α τ π) (kind : StreamKind) (pads : List Pad)
    (g : Graph (Filter τ π)) (h : g.Linear (↑pads + free)) :
    (drain kind g pads).Linear free ∧ g.Grows r (drain kind g pads) ∧
      (drain kind g pads).inputs = g.inputs := by
  induction pads generalizing g with
  | nil =>
      rw [Multiset.coe_nil, zero_add] at h
      exact ⟨h, .refl r g, rfl⟩
  | cons p pads ih =>
      have hp : g.Linear (↑[p] + (↑pads + free)) := by
        rwa [← add_assoc, Multiset.coe_add]
      have hs := hp.push (.sink kind) []
      rw [Graph.freshPads, Multiset.coe_nil, zero_add] at hs
      obtain ⟨hl, hg, hi⟩ := ih _ hs
      exact ⟨hl, (hp.grows_push [p] (.sink kind) []).trans hg, hi⟩

variable [Timescale τ] {s : Studio α τ π} {w : Workshop τ π}

/-- When the spares are drained, only what is at hand is free. -/
theorem Sound.finish (h : w.Sound s free) :
    w.finish.Linear free ∧ w.graph.Grows s.toReading w.finish ∧
      w.finish.inputs = w.graph.inputs := by
  have hp : (↑(sortByLabel w.spareVideos) + (↑(sortByLabel w.spareAudios) + free) : Multiset Pad) =
      free + w.sparePads := by
    rw [sparePads_eq, Multiset.coe_eq_coe.2 (sortByLabel_perm w.spareVideos),
      Multiset.coe_eq_coe.2 (sortByLabel_perm w.spareAudios)]
    ac_rfl
  have hl := h.linear
  rw [← hp] at hl
  obtain ⟨hv, hgv, hiv⟩ := linear_drain s.toReading .video _ _ hl
  obtain ⟨ha, hga, hia⟩ := linear_drain s.toReading .audio _ _ hv
  exact ⟨ha, hgv.trans hga, hia.trans hiv⟩

end Workshop

variable [Timescale τ] [PixelCount π]

namespace Studio

/-- A canvas of the frame's size. -/
def screen (s : Studio α τ π) (resolution : Resolution) (color : Option Color) : α :=
  s.canvas ⟨PixelCount.ofInt resolution.width, PixelCount.ofInt resolution.height,
    Color.orTransparent color⟩

def onScreen (s : Studio α τ π) (style : Style τ π) (resolution : Resolution) (video : α) : α :=
  s.filter (.overlay (style.margin.left.pixelsOr 0) (style.margin.top.pixelsOr 0) .shortest)
    [s.screen resolution style.backgroundColor, video] .video

/-- A pair runs together; a single stream stays as it is. -/
def paired (s : Studio α τ π) (c : Content α) : Content α :=
  match c.video, c.audio with
  | some v, some a => ⟨some (s.filter .pair [v, a] .video), some (s.filter .pair [v, a] .audio)⟩
  | _, _ => c

/-- A scene on the screen, held over its margins. -/
def staged (s : Studio α τ π) (style : Style τ π) (resolution : Resolution) (c : Content α) :
    Content α :=
  let shown : Content α := ⟨c.video.map (s.onScreen style resolution), c.audio⟩
  s.append style.timeMarginEnd.secondsOrZero style.backgroundColor
    (s.delay style.timeMarginStart.secondsOrZero style.backgroundColor shown)

end Studio

namespace Film

open Compile

variable {s : Studio α τ π}

theorem moves_screen (tag : Tag) (resolution : Resolution) (color : Option Color) :
    Moves s (screen tag resolution color) 0 (Carrying (s.screen resolution color)) := by
  refine Moves.mono (moves_canvas tag _ _ color) ?_
  rintro p out ⟨w, h, hw, hh, _, rfl⟩
  cases hw
  cases hh
  rfl

theorem moves_onScreen (root : Scene τ π) (resolution : Resolution) (video : Pad) (a : α) :
    Moves s (onScreen root resolution video) {(video, a)}
      (Carrying (s.onScreen root.style resolution a)) := by
  refine Moves.bind_zero (moves_screen root.tag resolution _) ?_
  rintro base _ rfl
  exact moves_join [(base, s.screen resolution root.style.backgroundColor), (video, a)] .video _

/-- A film is made of the streams of a scene whose length is known. -/
theorem ofScene_eq_ok {root : Scene τ π} {frame : Frame τ} {sampleRate : Nat} {film : Film τ π}
    (h : ofScene root frame sampleRate = .ok film) :
    root.style.objectLength.isFit = false ∧ ∃ st w,
      streams root frame.resolution (.start frame sampleRate) = .ok (st, w) ∧
        film = ⟨w.finish, st.video, st.audio, frame, root.style.footprintLength.secondsOrZero⟩ := by
  unfold ofScene at h
  split at h
  · cases h
  next hclosed =>
    cases hc : streams root frame.resolution (.start frame sampleRate) with
    | error e =>
        rw [hc] at h
        cases h
    | ok result =>
        rw [hc] at h
        cases h
        exact ⟨Bool.eq_false_iff.2 hclosed, _, _, rfl, rfl⟩

/-- The streams of a film carry what its scene denotes, on the screen. -/
theorem moves_streams (root : Scene τ π) (resolution : Resolution) (h : root.Heard s) :
    Moves s (streams root resolution) 0 fun st out => ∃ c, Denotes s root c ∧
      CarryingStreams (s.paired (s.staged root.style resolution c)) st out := by
  refine Moves.bind_all (Scene.moves_compile root h) ?_
  rintro st _ ⟨c, hc, x, y, hx, hy, rfl⟩
  refine Moves.bind (moves_mapM (moves_onScreen root resolution) hx) rfl ?_
  intro video x' hx'
  have hshown : CarryingStreams ⟨c.video.map (s.onScreen root.style resolution), c.audio⟩
      ⟨video, st.audio⟩ (x' + y) :=
    ⟨x', y, hx', hy, rfl⟩
  refine Moves.bind_all (Streams.moves_delay _ _ hshown) ?_
  intro st' out' h'
  refine Moves.bind_all (Streams.moves_append _ _ h') ?_
  rintro ⟨video'', audio''⟩ out'' h''
  suffices h : Moves s _ out'' (CarryingStreams (s.paired (s.staged root.style resolution c))) from
    Moves.mono h fun st out hst => ⟨c, hc, hst⟩
  change CarryingStreams (s.staged root.style resolution c) _ _ at h''
  obtain ⟨_, _, ⟨v, rfl, hv, rfl⟩, ⟨a, rfl, ha, rfl⟩, rfl⟩ := h''
  have hst : s.staged root.style resolution c = ⟨v.map Prod.snd, a.map Prod.snd⟩ := by
    rw [← hv, ← ha]
  rw [hst]
  rcases v with _ | ⟨v, d⟩ <;> rcases a with _ | ⟨a, e⟩
  · exact Moves.throw _
  · exact Moves.pure ⟨_, _, ⟨none, rfl, rfl, rfl⟩, ⟨some (a, e), rfl, rfl, rfl⟩, rfl⟩
  · exact Moves.pure ⟨_, _, ⟨some (v, d), rfl, rfl, rfl⟩, ⟨none, rfl, rfl, rfl⟩, rfl⟩
  · refine Moves.bind_all (moves_pair v a d e) ?_
    rintro ⟨v', a'⟩ _ rfl
    exact Moves.pure ⟨_, _, ⟨some (v', _), rfl, rfl, rfl⟩, ⟨some (a', _), rfl, rfl, rfl⟩, rfl⟩

/-- A film comes from a run that holds at its end only the streams of the film. -/
theorem exists_run {root : Scene τ π} {film : Film τ π}
    (h : ofScene root s.frame s.sampleRate = .ok film) (hheard : root.Heard s) :
    ∃ st w c out, streams root s.frame.resolution (.start s.frame s.sampleRate) = .ok (st, w) ∧
      film = ⟨w.finish, st.video, st.audio, s.frame, root.style.footprintLength.secondsOrZero⟩ ∧
      Denotes s root c ∧
      CarryingStreams (s.paired (s.staged root.style s.frame.resolution c)) st out ∧
      w.Balanced s out := by
  obtain ⟨-, st, w, hc, hfilm⟩ := ofScene_eq_ok h
  obtain ⟨out, ⟨c, hd, hout⟩, hw⟩ := (moves_streams root s.frame.resolution hheard).from_start hc
  exact ⟨st, w, c, out, hc, hfilm, hd, hout, hw⟩

end Film
end Montage
