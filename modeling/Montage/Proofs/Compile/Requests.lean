import Montage.Proofs.Compile.Books

/-!
# Requests of a workshop

What each request takes out of the hands of the code that compiles, and what it gives.

**Input.** A workshop whose books are right.

**Algorithm.** Adding a filter moves pads from the hands of the code through the filter. A canvas or
a file is taken from the spares, or added, and split; one half goes back to the spares.

**Results.**
* `Compile.moves_join`, `Compile.moves_fork`: a filter takes its inputs and gives its outputs.
* `Compile.moves_canvas`, `Compile.moves_source`: a spare stream carries what a new one would.
-/

namespace Montage

variable {α τ π : Type} [Timescale τ]

namespace Spares

variable {s : Studio α τ π} {sp : Spares} {g g' : Graph (Filter τ π)} {key key' : SourceKey}

theorem Fits.grows (h : sp.Fits s g key) (hg : g.Grows s.toReading g') : sp.Fits s g' key where
  video_isSome := h.video_isSome
  hears_audio := h.hears_audio
  video p hp := hg.value _ _ (h.video p hp)
  audio p hp := hg.value _ _ (h.audio p hp)

/-- Spares fit every name of their file. -/
theorem Fits.same (h : sp.Fits s g key') (hs : key.same key' = true) : sp.Fits s g key where
  video_isSome := by
    have hk : key.kind = key'.kind := by simpa using (Bool.and_eq_true_iff.1 hs).2
    rw [hk, h.video_isSome]
  hears_audio := s.hears_same _ _ _ (SourceKey.same_comm key key' ▸ hs) h.hears_audio
  video p hp := by rw [s.stream_same hs, h.video p hp]
  audio p hp := by rw [s.stream_same hs, h.audio p hp]

end Spares

namespace Workshop

variable {s : Studio α τ π} {w : Workshop τ π} {free : Multiset Pad}

/-- The graph of a workshop is replaced by one that has grown. -/
theorem Sound.withGraph {g : Graph (Filter τ π)} {free' : Multiset Pad} (h : w.Sound s free)
    (hg : w.graph.Grows s.toReading g) (hl : g.Linear (free' + w.sparePads))
    (hi : ∀ i ∈ g.inputs, ∃ kind, i.options = Compile.inputOptions s.frame.fps kind) :
    ({ w with graph := g } : Workshop τ π).Sound s free' where
  frame := h.frame
  sampleRate := h.sampleRate
  linear := hl
  canvas_outputs := h.canvas_outputs
  canvases e he := hg.value _ _ (h.canvases e he)
  sources e he := (h.sources e he).grows hg
  inputs := hi

/-- Pads are moved between the hands of the code and the spares. -/
theorem Sound.restock {canvases : List (CanvasKey π × Pad)} {sources : List (SourceKey × Spares)}
    {free' : Multiset Pad} (h : w.Sound s free)
    (hb : free + w.sparePads =
      free' + ({ w with canvases := canvases, sources := sources } : Workshop τ π).sparePads)
    (ho : ∀ e ∈ canvases, e.2.IsOutput)
    (hc : ∀ e ∈ canvases, w.graph.value s.toReading e.2 = some (s.canvas e.1))
    (hs : ∀ e ∈ sources, e.2.Fits s w.graph e.1) :
    ({ w with canvases := canvases, sources := sources } : Workshop τ π).Sound s free' where
  frame := h.frame
  sampleRate := h.sampleRate
  linear := hb ▸ h.linear
  canvas_outputs := ho
  canvases := hc
  sources := hs
  inputs := h.inputs

/-- A filter is added. -/
theorem Sound.push {inputs : List Pad} (h : w.Sound s (↑inputs + free)) (filter : Filter τ π)
    (kinds : List StreamKind) :
    ({ w with graph := (w.graph.push inputs filter kinds).2 } : Workshop τ π).Sound s
      (↑(Graph.freshPads w.graph.next kinds) + free) := by
  refine h.withGraph (h.linear.grows_push inputs filter kinds) ?_ h.inputs
  rw [add_assoc]
  have hl := h.linear
  rw [add_assoc] at hl
  exact hl.push filter kinds

/-- A filter is added; its outputs carry what the filter makes of its inputs. -/
theorem Balanced.push {l : List (Pad × α)} {rest : Multiset (Pad × α)}
    (h : w.Balanced s (↑l + rest)) (filter : Filter τ π) (kinds : List StreamKind) :
    ({ w with graph := (w.graph.push (l.map Prod.fst) filter kinds).2 } : Workshop τ π).Balanced s
      (↑((Graph.freshPads w.graph.next kinds).map fun p =>
        (p, s.filter filter (l.map Prod.snd) p.kind)) + rest) where
  toSound := by
    have hs := h.toSound
    rw [Multiset.map_add, Multiset.map_coe] at hs
    simpa [Function.comp_def] using hs.push filter kinds
  outputs x hx := by
    rcases Multiset.mem_add.1 hx with hx | hx
    · obtain ⟨p, hp, rfl⟩ := List.mem_map.1 (Multiset.mem_coe.1 hx)
      obtain ⟨k, id, rfl, _⟩ := Graph.freshPads_ge _ _ p hp
      exact Pad.isOutput_output k id
    · exact h.outputs x (Multiset.mem_add.2 (Or.inr hx))
  values x hx := by
    rcases Multiset.mem_add.1 hx with hx | hx
    · obtain ⟨p, hp, rfl⟩ := List.mem_map.1 (Multiset.mem_coe.1 hx)
      refine Graph.value_push_of_mem ?_ filter hp
      intro y hy
      exact h.values y (Multiset.mem_add.2 (Or.inl (Multiset.mem_coe.2 hy)))
    · exact (h.linear.grows_push _ _ _).value _ _ (h.values x (Multiset.mem_add.2 (Or.inr hx)))

/-- A spare of a canvas that the workshop knows is taken out of it. -/
theorem Balanced.takeCanvas [DecidableEq π] {key : CanvasKey π} {p : Pad}
    {others : List (CanvasKey π × Pad)} {rest : Multiset (Pad × α)} (h : w.Balanced s rest)
    (ht : takeEntry (· == key) w.canvases = some (p, others)) :
    ({ w with canvases := others } : Workshop τ π).Balanced s ({(p, s.canvas key)} + rest) := by
  obtain ⟨key', hk, hp⟩ := takeEntry_eq_some ht
  obtain rfl : key' = key := by simpa using hk
  have hmem : ∀ e ∈ (key', p) :: others, e ∈ w.canvases := fun e he => hp.mem_iff.2 he
  have hs : (↑(w.canvases.map Prod.snd) : Multiset Pad) = {p} + ↑(others.map Prod.snd) :=
    Multiset.coe_eq_coe.2 (hp.map Prod.snd)
  refine ⟨h.toSound.restock ?_ ?_ ?_ h.sources, ?_, ?_⟩
  · rw [sparePads, sparePads, hs, Multiset.map_add, Multiset.map_singleton]
    ac_rfl
  · exact fun e he => h.canvas_outputs e (hmem e (List.mem_cons_of_mem _ he))
  · exact fun e he => h.canvases e (hmem e (List.mem_cons_of_mem _ he))
  · intro x hx
    rcases Multiset.mem_add.1 hx with hx | hx
    · rw [Multiset.mem_singleton.1 hx]
      exact h.canvas_outputs _ (hmem _ List.mem_cons_self)
    · exact h.outputs x hx
  · intro x hx
    rcases Multiset.mem_add.1 hx with hx | hx
    · rw [Multiset.mem_singleton.1 hx]
      exact h.canvases _ (hmem _ List.mem_cons_self)
    · exact h.values x hx

/-- The spares of a file that the workshop knows are taken out of it. -/
theorem Sound.takeSource {key : SourceKey} {sp : Spares} {others : List (SourceKey × Spares)}
    (h : w.Sound s free) (ht : takeEntry key.same w.sources = some (sp, others)) :
    ({ w with sources := others } : Workshop τ π).Sound s (↑sp.pads + free) ∧
      sp.Fits s w.graph key := by
  obtain ⟨key', hk, hp⟩ := takeEntry_eq_some ht
  have hmem : ∀ e ∈ (key', sp) :: others, e ∈ w.sources := fun e he => hp.mem_iff.2 he
  have hs : (↑(w.sources.flatMap fun e => e.2.pads) : Multiset Pad) =
      ↑sp.pads + ↑(others.flatMap fun e => e.2.pads) :=
    Multiset.coe_eq_coe.2 (hp.flatMap_right _)
  refine ⟨h.restock ?_ h.canvas_outputs h.canvases ?_, ?_⟩
  · rw [sparePads, sparePads, hs]
    ac_rfl
  · exact fun e he => h.sources e (hmem e (List.mem_cons_of_mem _ he))
  · exact (h.sources _ (hmem _ List.mem_cons_self)).same hk

/-- A file is added as an input. -/
theorem Sound.addInput {kinds : List StreamKind} (h : w.Sound s free) (hk : kinds.Nodup)
    (path : Path) (kind : MediaKind) :
    ({ w with graph := (w.graph.addInput
        ⟨Compile.inputOptions s.frame.fps kind, path⟩).2 } : Workshop τ π).Sound s
      (↑(kinds.map (Pad.input w.graph.inputs.length)) + free) := by
  refine h.withGraph (h.linear.grows_addInput _) ?_ ?_
  · rw [add_assoc]
    exact h.linear.addInput _ hk
  · intro j hj
    rcases List.mem_append.1 hj with hj | hj
    · exact h.inputs j hj
    · rw [List.mem_singleton.1 hj]
      exact ⟨kind, rfl⟩

/-- The spares of a file are known to the workshop, or the file is added as an input. -/
theorem Sound.spares {key : SourceKey} {wantAudio : Bool} {sp : Spares} {w' : Workshop τ π}
    (h : w.Sound s free) (hh : s.hears key wantAudio)
    (hc : Compile.spares key wantAudio w = .ok (sp, w')) :
    w'.Sound s (↑sp.pads + free) ∧ sp.Fits s w'.graph key ∧
      w.graph.Grows s.toReading w'.graph := by
  rw [Compile.spares, Compile.get_bind] at hc
  cases ht : takeEntry key.same w.sources with
  | some found =>
      obtain ⟨spares, others⟩ := found
      simp only [ht] at hc
      cases hc
      obtain ⟨hs, hf⟩ := h.takeSource ht
      exact ⟨hs, hf, .refl _ _⟩
  | none =>
      simp only [ht, h.frame] at hc
      cases hc
      let kinds : List StreamKind :=
        (if key.kind.hasVideo then [.video] else []) ++ (if wantAudio then [.audio] else [])
      have hk : kinds.Nodup := by
        simp only [kinds]
        split <;> split <;> decide
      have hpads : kinds.map (Pad.input w.graph.inputs.length) = Spares.pads
          ⟨if key.kind.hasVideo then some (.input w.graph.inputs.length .video) else none,
            if wantAudio then some (.input w.graph.inputs.length .audio) else none⟩ := by
        simp only [kinds, Spares.pads]
        split <;> split <;> rfl
      have hv := h.linear.value_addInput_new (r := s.toReading)
        ⟨Compile.inputOptions s.frame.fps key.kind, key.path⟩
      refine ⟨hpads ▸ h.addInput hk key.path key.kind, ?_, h.linear.grows_addInput _⟩
      constructor
      · cases key.kind.hasVideo <;> rfl
      · cases wantAudio <;> exact hh
      · intro p hp
        obtain ⟨_, ⟨⟩⟩ := Option.ite_none_right_eq_some.1 (Option.mem_def.1 hp)
        exact hv .video
      · intro p hp
        obtain ⟨_, ⟨⟩⟩ := Option.ite_none_right_eq_some.1 (Option.mem_def.1 hp)
        exact hv .audio

/-- A stream that is wanted and there is split, and its other half is left as a spare. -/
theorem Sound.handOut {kind : StreamKind} {wanted : Bool} {spare taken left : Option Pad} {a : α}
    {w' : Workshop τ π} (h : w.Sound s (↑spare.toList + free))
    (hv : ∀ p ∈ spare, w.graph.value s.toReading p = some a)
    (hc : Compile.handOut kind wanted spare w = .ok ((taken, left), w')) :
    w'.Sound s (↑taken.toList + ↑left.toList + free) ∧ w.graph.Grows s.toReading w'.graph ∧
      taken.isSome = (wanted && spare.isSome) ∧ left.isSome = spare.isSome ∧
      (∀ p ∈ taken, p.IsOutput) ∧ (∀ p ∈ taken, w'.graph.value s.toReading p = some a) ∧
      ∀ p ∈ left, w'.graph.value s.toReading p = some a := by
  cases spare with
  | none =>
      have hc' : (.ok ((none, none), w) : Except Failure _) = .ok ((taken, left), w') := by
        cases wanted <;> exact hc
      cases hc'
      exact ⟨by simpa using h, .refl _ _, by simp, rfl, by simp, by simp, by simp⟩
  | some p =>
      cases wanted with
      | false =>
          cases hc
          exact ⟨by simpa using h, .refl _ _, rfl, rfl, by simp, by simp, hv⟩
      | true =>
          cases hc
          have hpush := h.push (.split kind) [kind, kind]
          have hval : ∀ q ∈ Graph.freshPads w.graph.next [kind, kind], q.kind = kind →
              (w.graph.push [p] (.split kind) [kind, kind]).2.value s.toReading q = some a := by
            intro q hq hk
            have hpa : ∀ x ∈ [(p, a)], w.graph.value s.toReading x.1 = some x.2 := by
              simpa using hv
            rw [← s.filter_split kind kind a, ← hk]
            exact hk ▸ Graph.value_push_of_mem hpa (.split kind) hq
          refine ⟨?_, h.linear.grows_push _ _ _, rfl, rfl, ?_, ?_, ?_⟩
          · exact hpush
          · rintro q ⟨⟩
            exact Pad.isOutput_output _ _
          · rintro q ⟨⟩
            exact hval _ (by simp [Graph.freshPads]) rfl
          · rintro q ⟨⟩
            exact hval _ (by simp [Graph.freshPads]) rfl

end Workshop

namespace Compile

open Workshop

variable {s : Studio α τ π}

/-- A filter takes its inputs and gives its output. -/
theorem moves_join (l : List (Pad × α)) (kind : StreamKind) (filter : Filter τ π) :
    Moves s (join kind (l.map Prod.fst) filter) ↑l
      (Carrying (s.filter filter (l.map Prod.snd) kind)) := by
  intro w w' b rest hw hc
  cases hc
  refine ⟨⟨_, rfl, ?_⟩, hw.linear.grows_push _ _ _⟩
  exact hw.push filter [kind]

/-- A filter takes its inputs and gives two outputs. -/
theorem moves_fork (l : List (Pad × α)) (first second : StreamKind) (filter : Filter τ π) :
    Moves s (onGraph fun g => g.fork first second (l.map Prod.fst) filter) ↑l
      (CarryingTwo (s.filter filter (l.map Prod.snd) first)
        (s.filter filter (l.map Prod.snd) second)) := by
  intro w w' b rest hw hc
  cases hc
  refine ⟨⟨_, rfl, ?_⟩, hw.linear.grows_push _ _ _⟩
  exact hw.push filter [first, second]

theorem moves_apply (p : Pad) (a : α) (kind : StreamKind) (filter : Filter τ π) :
    Moves s (apply kind filter p) {(p, a)} (Carrying (s.apply filter kind a)) :=
  moves_join [(p, a)] kind filter

theorem moves_generate (kind : StreamKind) (filter : Filter τ π) :
    Moves s (join kind [] filter) 0 (Carrying (s.filter filter [] kind)) :=
  moves_join [] kind filter

/-- Both halves of a stream carry what it carried. -/
theorem moves_split (p : Pad) (a : α) (kind : StreamKind) :
    Moves s (split kind p) {(p, a)} (CarryingTwo a a) := by
  have h := moves_fork (s := s) [(p, a)] kind kind (.split kind)
  simp only [List.map_cons, List.map_nil, s.filter_split] at h
  exact h

theorem moves_pair (v u : Pad) (a b : α) :
    Moves s (pair v u) ({(v, a)} + {(u, b)})
      (CarryingTwo (s.filter .pair [a, b] .video) (s.filter .pair [a, b] .audio)) :=
  moves_fork [(v, a), (u, b)] .video .audio .pair

theorem moves_concrete [PixelCount π] (tag : Tag) (property : Dimension) (l : Length π) :
    Moves s (concrete tag property l) 0 fun n out => l.pixels? = some n ∧ out = 0 := by
  unfold concrete
  split
  · next n hn => exact Moves.pure ⟨hn, rfl⟩
  · exact Moves.throw _

/-- The stream that a canvas is split from carries the canvas, whether it is a spare or new. -/
theorem moves_canvasStream [PixelCount π] (key : CanvasKey π) :
    Moves s (canvasStream key) 0 (Carrying (s.canvas key)) := by
  intro w w' b rest hw hc
  rw [canvasStream, get_bind] at hc
  cases ht : takeEntry (· == key) w.canvases with
  | some found =>
      obtain ⟨spare, others⟩ := found
      simp only [ht] at hc
      cases hc
      rw [zero_add] at hw
      exact ⟨⟨_, rfl, hw.takeCanvas ht⟩, .refl _ _⟩
  | none =>
      simp only [ht, hw.frame] at hc
      refine Moves.bind_all (moves_generate .video _) ?_ w w' b rest hw hc
      rintro p out rfl
      exact moves_apply p _ .video .rgba

/-- A canvas is kept for the next request. -/
theorem moves_keepCanvas (key : CanvasKey π) (spare : Pad) :
    Moves s (modify fun w => { w with canvases := (key, spare) :: w.canvases })
      {(spare, s.canvas key)} (fun _ out => out = 0) := by
  intro w w' b rest hw hc
  cases hc
  have hmem : (spare, s.canvas key) ∈ {(spare, s.canvas key)} + rest := by
    simp
  refine ⟨⟨0, rfl, hw.toSound.restock ?_ ?_ ?_ hw.sources, ?_, ?_⟩, .refl _ _⟩
  · rw [sparePads, sparePads, Multiset.map_add, Multiset.map_singleton, List.map_cons,
      ← Multiset.cons_coe, ← Multiset.singleton_add, zero_add]
    ac_rfl
  · intro e he
    rcases List.mem_cons.1 he with rfl | he
    · exact hw.outputs _ hmem
    · exact hw.canvas_outputs e he
  · intro e he
    rcases List.mem_cons.1 he with rfl | he
    · exact hw.values _ hmem
    · exact hw.canvases e he
  · intro x hx
    exact hw.outputs x (Multiset.mem_add.2 (Or.inr (by rwa [zero_add] at hx)))
  · intro x hx
    exact hw.values x (Multiset.mem_add.2 (Or.inr (by rwa [zero_add] at hx)))

/-- A canvas whose size is not concrete or not positive is refused; any other is given. -/
theorem moves_canvas [PixelCount π] (tag : Tag) (width height : Length π) (color : Option Color) :
    Moves s (canvas tag width height color) 0 fun p out =>
      ∃ w h, width.pixels? = some w ∧ height.pixels? = some h ∧ ¬ (w ≤ 0 ∨ h ≤ 0) ∧
        Carrying (s.canvas ⟨w, h, Color.orTransparent color⟩) p out := by
  refine Moves.after_counted (Moves.bind_zero (moves_concrete tag .width width) ?_)
  rintro w _ ⟨hw, rfl⟩
  refine Moves.bind_zero (moves_concrete tag .height height) ?_
  rintro h _ ⟨hh, rfl⟩
  split
  · exact Moves.throw _
  · next hpos =>
      refine Moves.bind_zero (moves_canvasStream _) ?_
      rintro stream _ rfl
      refine Moves.bind (moves_split stream _ .video) rfl ?_
      rintro ⟨taken, spare⟩ _ rfl
      refine Moves.bind (moves_keepCanvas _ spare) (l := {(taken, _)}) (by abel) ?_
      rintro _ _ rfl
      exact Moves.pure ⟨w, h, hw, hh, hpos, by simp [Carrying]⟩

theorem carryingOption_of {a : α} {b : Bool} {p : Option Pad} (h : p.isSome = b) :
    CarryingOption (if b then some a else none) p ↑(p.toList.map fun q => (q, a)) := by
  subst h
  cases p with
  | none => exact ⟨none, rfl, rfl, rfl⟩
  | some q => exact ⟨some (q, a), rfl, rfl, rfl⟩

/-- The streams of a file that are wanted and there are given. -/
theorem moves_source {path : Path} {kind : MediaKind} (wantVideo : Bool) {wantAudio : Bool}
    (hh : s.hears ⟨path, kind⟩ wantAudio) :
    Moves s (source path kind wantVideo wantAudio) 0 fun p out =>
      ∃ heard x y, s.hears ⟨path, kind⟩ heard ∧
        CarryingOption (if wantVideo && kind.hasVideo then some (s.stream ⟨path, kind⟩ .video)
          else none) p.1 x ∧
        CarryingOption (if wantAudio && heard then some (s.stream ⟨path, kind⟩ .audio)
          else none) p.2 y ∧ out = x + y := by
  intro w w₄ b rest hw hc
  obtain ⟨sp, w₁, hc₁, hc⟩ := bind_eq_ok.1 hc
  obtain ⟨⟨video, videoSpare⟩, w₂, hc₂, hc⟩ := bind_eq_ok.1 hc
  obtain ⟨⟨audio, audioSpare⟩, w₃, hc₃, hc⟩ := bind_eq_ok.1 hc
  cases hc
  rw [zero_add] at hw
  obtain ⟨hs₁, hf, hg₁⟩ := hw.toSound.spares hh hc₁
  rw [Spares.pads, ← Multiset.coe_add, add_assoc] at hs₁
  obtain ⟨hs₂, hg₂, hv, hvSpare, hvOut, hvVal, hvLeft⟩ := hs₁.handOut hf.video hc₂
  rw [add_left_comm] at hs₂
  obtain ⟨hs₃, hg₃, ha, haSpare, haOut, haVal, haLeft⟩ :=
    hs₂.handOut (fun p hp => hg₂.value _ _ (hf.audio p hp)) hc₃
  have hgrow := (hg₁.trans hg₂).trans hg₃
  have hfit : Spares.Fits ⟨videoSpare, audioSpare⟩ s w₃.graph ⟨path, kind⟩ :=
    { video_isSome := hvSpare.trans hf.video_isSome
      hears_audio := by rw [haSpare]; exact hf.hears_audio
      video := fun p hp => hg₃.value _ _ (hvLeft p hp)
      audio := haLeft }
  rw [hf.video_isSome] at hv
  refine ⟨⟨_, ⟨sp.audio.isSome, _, _, hf.hears_audio, carryingOption_of hv, carryingOption_of ha,
    rfl⟩, hs₃.restock ?_ hs₃.canvas_outputs hs₃.canvases ?_, ?_, ?_⟩, hgrow⟩
  · rw [sparePads, sparePads, List.flatMap_cons, ← Multiset.coe_add, Spares.pads,
      ← Multiset.coe_add]
    simp only [Multiset.map_add, Multiset.map_coe, List.map_map, Function.comp_def, List.map_id']
    abel
  · intro e he
    rcases List.mem_cons.1 he with rfl | he
    · exact hfit
    · exact hs₃.sources e he
  · intro x hx
    simp only [Multiset.mem_add, Multiset.mem_coe, List.mem_map, Option.mem_toList] at hx
    rcases hx with (⟨p, hp, rfl⟩ | ⟨p, hp, rfl⟩) | hx
    · exact hvOut p hp
    · exact haOut p hp
    · exact hw.outputs x hx
  · intro x hx
    simp only [Multiset.mem_add, Multiset.mem_coe, List.mem_map, Option.mem_toList] at hx
    rcases hx with (⟨p, hp, rfl⟩ | ⟨p, hp, rfl⟩) | hx
    · exact hg₃.value _ _ (hvVal p hp)
    · exact haVal p hp
    · exact hgrow.value _ _ (hw.values x hx)

end Compile
end Montage
