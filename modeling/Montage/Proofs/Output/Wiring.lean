import Montage.Proofs.Compile.Stills
import Montage.Proofs.Output.Arguments

/-!
# The graphs of films and stills are wired

**Input.** A scene, the frame of its document, and a job.

**Algorithm.** The books of the workshop are read without any interest in what streams carry. They
are kept when a film is fitted to its format.

**Results.** `Plan.emitted_wired`: in the graph of every film and still, before and after it is fitted to a
format, every pad is offered once and read once, but for the pads that the plan keeps.
-/

namespace Montage

variable {τ π : Type}

namespace Film

variable {g : Graph (Filter τ π)} {free : Multiset Pad}

theorem pair_eq_add (p q : Pad) : (↑[p, q] : Multiset Pad) = ↑[q] + ↑[p] := by
  rw [Multiset.coe_add]
  exact Multiset.coe_eq_coe.2 (List.Perm.swap q p [])

/-- The palette of a video takes the video and gives another. -/
theorem linear_withPalette {video : Pad} (h : g.Linear (↑[video] + free)) :
    (withPalette g video).2.Linear (↑[(withPalette g video).1] + free) ∧
      (withPalette g video).1.IsOutput ∧ (withPalette g video).2.inputs = g.inputs := by
  have hsplit := h.push (.split .video) [.video, .video]
  rw [show Graph.freshPads g.next [.video, .video] =
    [.output .video g.next, .output .video (g.next + 1)] from rfl, pair_eq_add, add_assoc] at hsplit
  have hpalette := hsplit.push .makePalette [.video]
  rw [← add_assoc, Graph.freshPads, Graph.freshPads, ← pair_eq_add] at hpalette
  have hboth := hpalette.push .usePalette [.video]
  exact ⟨hboth, Pad.isOutput_output _ _, rfl⟩

/-- Nothing but the pads of a film is left open in its graph. -/
structure Closed [Timescale τ] (f : Film τ π) : Prop where
  linear : f.graph.Linear ↑f.pads
  outputs : ∀ p ∈ f.pads, p.IsOutput
  inputs : ∀ i ∈ f.graph.inputs, ∃ kind, i.options = Compile.inputOptions f.frame.fps kind

namespace Closed

variable [Timescale τ] {f : Film τ π}

theorem reduced (h : f.Closed) (format : FileFormat) : (f.reduced format).Closed := by
  unfold Film.reduced
  split
  · next video hv =>
      have hl := h.linear
      rw [Film.pads, hv, Option.toList_some, ← Multiset.coe_add] at hl
      obtain ⟨hlinear, hout, hinputs⟩ := linear_withPalette hl
      constructor
      · rw [Film.pads, Option.toList_some, ← Multiset.coe_add]
        exact hlinear
      · intro p hp
        rcases List.mem_append.1 hp with hp | hp
        · rw [List.mem_singleton.1 hp]
          exact hout
        · exact h.outputs p (List.mem_append.2 (Or.inr hp))
      · rw [hinputs]
        exact h.inputs
  · exact h

theorem muted (h : f.Closed) (format : FileFormat) : (f.muted format).Closed := by
  unfold Film.muted
  split
  · next audio _ ha =>
      have hl := h.linear
      rw [Film.pads, ha, Option.toList_some, ← Multiset.coe_add, add_comm] at hl
      constructor
      · have hsunk := hl.push (.sink .audio) []
        rw [Graph.freshPads, Multiset.coe_nil, zero_add] at hsunk
        rw [Film.pads, Option.toList_none, List.append_nil]
        exact hsunk
      · intro p hp
        rw [Film.pads, Option.toList_none, List.append_nil] at hp
        exact h.outputs p (List.mem_append.2 (Or.inl hp))
      · exact h.inputs
  · exact h

theorem fitted (h : f.Closed) (format : FileFormat) : (f.fitted format).Closed :=
  (h.reduced format).muted format

end Closed
end Film

variable [Timescale τ]

/-- A studio in which nothing is known of streams. -/
def Studio.unread (frame : Frame τ) (sampleRate : Nat) : Studio Unit τ π where
  input _ _ := ()
  filter _ _ _ := ()
  frame := frame
  sampleRate := sampleRate
  hears _ _ := True
  filter_split _ _ _ := rfl
  input_same _ _ _ _ _ := rfl
  hears_same _ _ _ _ _ := trivial

namespace Compile

theorem CarryingStreams.map_fst {α : Type} {c : Content α} {st : Streams}
    {out : Multiset (Pad × α)} (h : CarryingStreams c st out) :
    out.map Prod.fst = ↑(st.video.toList ++ st.audio.toList) := by
  obtain ⟨_, _, ⟨x, hx, _, rfl⟩, ⟨y, hy, _, rfl⟩, rfl⟩ := h
  rw [hx, hy]
  cases x <;> cases y <;> rfl

/-- A compilation that ends with the given pads leaves only these open. -/
theorem Moves.closed {α β : Type} {s : Studio α τ π} {c : Compile τ π β}
    {given : β → Multiset (Pad × α) → Prop} (hc : Moves s c 0 given) {b : β} {w : Workshop τ π}
    (h : c (.start s.frame s.sampleRate) = .ok (b, w)) (pads : List Pad)
    (hp : ∀ out, given b out → out.map Prod.fst = ↑pads) :
    w.finish.Linear ↑pads ∧ (∀ p ∈ pads, p.IsOutput) ∧
      ∀ i ∈ w.finish.inputs, ∃ kind, i.options = inputOptions s.frame.fps kind := by
  obtain ⟨out, ho, hw⟩ := hc.from_start h
  have hs := hw.toSound
  rw [hp out ho] at hs
  obtain ⟨hl, _, hi⟩ := hs.finish
  refine ⟨hl, ?_, hi ▸ hs.inputs⟩
  intro p hm
  have hmem : p ∈ out.map Prod.fst := by
    rw [hp out ho]
    exact Multiset.mem_coe.2 hm
  obtain ⟨x, hx, rfl⟩ := Multiset.mem_map.1 hmem
  exact hw.outputs x hx

end Compile

open Compile

variable [PixelCount π]

theorem Film.closed_of_ofScene {root : Scene τ π} {frame : Frame τ} {sampleRate : Nat}
    {film : Film τ π} (h : ofScene root frame sampleRate = .ok film) : film.Closed := by
  let s : Studio Unit τ π := .unread frame sampleRate
  have hheard : root.Heard s := fun _ _ _ _ _ _ _ => trivial
  obtain ⟨-, st, w, hc, rfl⟩ := ofScene_eq_ok h
  obtain ⟨hl, ho, hi⟩ := (moves_streams root frame.resolution hheard).closed hc
    (st.video.toList ++ st.audio.toList) (by
      rintro out ⟨_, _, hout⟩
      exact hout.map_fst)
  exact ⟨hl, ho, hi⟩

theorem Still.closed_of_ofScene {root : Scene τ π} {frame : Frame τ} {index : Nat}
    {still : Still τ π} (h : ofScene root frame index = .ok still) :
    still.graph.Linear ↑[still.video] ∧ still.video.IsOutput ∧
      ∀ i ∈ still.graph.inputs, ∃ kind, i.options = inputOptions frame.fps kind := by
  let s : Studio Unit τ π := .unread frame 48000
  unfold ofScene at h
  simp only at h
  split at h
  · cases h
  cases hc : picture root frame.resolution (secondOf frame index) (.start frame 48000) with
  | error e =>
      rw [hc] at h
      cases h
  | ok r =>
      obtain ⟨video, w⟩ := r
      rw [hc] at h
      cases h
      obtain ⟨hl, ho, hi⟩ :=
        (moves_picture (s := s) (fun _ => trivial) root frame.resolution _).closed hc [video] (by
          rintro out ⟨_, hout⟩
          rw [hout]
          rfl)
      exact ⟨hl, ho video List.mem_cons_self, hi⟩

namespace Plan

/-- Every graph that is emitted is wired: that of a film before and after it is fitted to a format,
and that of a still. The pads that are left open are those that the plan keeps. -/
theorem emitted_wired (root : Scene τ π) (frame : Frame τ) (sampleRate index : Nat) (j : Job) :
    (∀ film, Film.ofScene root frame sampleRate = .ok film →
      film.graph.Wired (film.pads.map Pad.label) ∧
      (film.fitted j.format).graph.Wired ((film.fitted j.format).pads.map Pad.label) ∧
      valuesOf "-map" (ofFilm j film).arguments =
        (film.fitted j.format).pads.map (fun p => "[" ++ p.label ++ "]") ∧
      valuesOf "-filter_complex" (ofFilm j film).arguments =
        [((film.fitted j.format).graph.map Filter.invocation).text]) ∧
    (∀ still, Still.ofScene root frame index = .ok still →
      still.graph.Wired [still.video.label] ∧
      valuesOf "-map" (ofStill j still).arguments = ["[" ++ still.video.label ++ "]"] ∧
      valuesOf "-filter_complex" (ofStill j still).arguments =
        [(still.graph.map Filter.invocation).text]) := by
  constructor
  · intro film h
    have hclosed := Film.closed_of_ofScene h
    have hfitted := hclosed.fitted j.format
    obtain ⟨hmap, hgraph⟩ := valuesOf_ofFilm j film hfitted.inputs hfitted.outputs
    exact ⟨hclosed.linear.wired hclosed.outputs, hfitted.linear.wired hfitted.outputs, hmap, hgraph⟩
  · intro still h
    obtain ⟨hlinear, hout, hinputs⟩ := Still.closed_of_ofScene h
    obtain ⟨hmap, hgraph⟩ := valuesOf_ofStill j still hinputs hout
    exact ⟨hlinear.wired (by simpa using hout), hmap, hgraph⟩

/-- The style of a clip that is held for a second. -/
def clipStyle : Style Rat Int :=
  { Style.initial with
    objectLength := .seconds 2
    width := .pixel 320
    height := .pixel 180
    timeMarginEnd := .seconds 1
    source := ⟨some 3, some 320, some 180, false, none⟩ }

/-- A silent clip that is shown twice, with a text in between. -/
def clips : Scene Rat Int :=
  .container .seq { clipStyle with objectLength := .seconds 7 }
    [.leaf .vid .video (.path ⟨"clip.mp4"⟩) clipStyle,
      .leaf .txt .text (.text "then") clipStyle,
      .leaf .vid .video (.path ⟨"clip.mp4"⟩) clipStyle]

def clipsFrame : Frame Rat :=
  ⟨⟨320, 180⟩, 25⟩

def clipsJob : Job :=
  ⟨⟨"clips.gif"⟩, .gif, true, false, 48000, 8000, 128, "ffmpeg"⟩

theorem emitted_wired_clips :
    (∃ film, Film.ofScene clips clipsFrame 48000 = .ok film ∧
      film.graph.Wired (film.pads.map Pad.label) ∧
      (film.fitted .gif).graph.Wired ((film.fitted .gif).pads.map Pad.label) ∧
      valuesOf "-map" (ofFilm clipsJob film).arguments =
        (film.fitted .gif).pads.map (fun p => "[" ++ p.label ++ "]")) ∧
    ∃ still, Still.ofScene clips clipsFrame 30 = .ok still ∧
      still.graph.Wired [still.video.label] := by
  obtain ⟨hfilm, hstill⟩ := emitted_wired clips clipsFrame 48000 30 clipsJob
  have hf : (Film.ofScene clips clipsFrame 48000).toOption.isSome = true := by
    decide +kernel
  have hs : (Still.ofScene clips clipsFrame 30).toOption.isSome = true := by
    decide +kernel
  constructor
  · cases h : Film.ofScene clips clipsFrame 48000 with
    | error e =>
        rw [h] at hf
        cases hf
    | ok film =>
        obtain ⟨hplain, hfitted, hmap, _⟩ := hfilm film h
        exact ⟨film, rfl, hplain, hfitted, hmap⟩
  · cases h : Still.ofScene clips clipsFrame 30 with
    | error e =>
        rw [h] at hs
        cases hs
    | ok still => exact ⟨still, rfl, (hstill still h).1⟩

end Plan
end Montage
