import Montage.Proofs.Compile.Origin
import Montage.Proofs.Output.Wiring

/-!
# Reuse of canvases and files

What a workshop makes of requests for canvases and files, however they are mixed.

**Input.** Requests that a workshop serves one after the other, from the first.

**Algorithm.** Induction on the requests. A request finds the spare of its key, or makes it; it
splits the spare, hands out one half and keeps the other. So at every time one spare is kept of each
canvas, and one of each stream of a file that can be asked for.

**Results.**
* `Workshop.Stocked.serve`: what a workshop holds after one more request.
* `Request.reused_of_agrees`: every canvas is generated once and every file is an input once; what is
  handed out goes back to the generator or the input of its own request.
-/

namespace Montage

variable {τ π : Type}

/-! ### What a workshop holds -/

/-- What is kept of a file: its video if it has one, its sound if that is asked for. -/
structure Spares.Keep (sp : Spares) (g : Graph (Filter τ π)) (files : List SourceKey)
    (key : SourceKey) (heard : Bool) : Prop where
  video_isSome : sp.video.isSome = key.kind.hasVideo
  audio_isSome : sp.audio.isSome = heard
  video : ∀ p ∈ sp.video, g.FromFile files key .video p
  audio : ∀ p ∈ sp.audio, g.FromFile files key .audio p

namespace Spares.Keep

variable {sp : Spares} {g g' : Graph (Filter τ π)} {files files' : List SourceKey}
  {a b : SourceKey} {heard : Bool}

theorem mono (h : sp.Keep g files a heard) (hg : g.stages ⊆ g'.stages) (hf : files <+: files') :
    sp.Keep g' files' a heard where
  video_isSome := h.video_isSome
  audio_isSome := h.audio_isSome
  video p hp := (h.video p hp).mono hg hf
  audio p hp := (h.audio p hp).mono hg hf

theorem same (h : sp.Keep g files a heard) (hs : a.same b = true) : sp.Keep g files b heard where
  video_isSome := by
    have hk : a.kind = b.kind := congrArg Prod.snd (SourceKey.same_iff.1 hs)
    rw [← hk]
    exact h.video_isSome
  audio_isSome := h.audio_isSome
  video p hp := (h.video p hp).same hs
  audio p hp := (h.audio p hp).same hs

end Spares.Keep

namespace Spares

/-- The streams of a file that is an input. -/
def ofInput (index : Nat) (kind : MediaKind) (heard : Bool) : Spares where
  video := if kind.hasVideo then some (.input index .video) else none
  audio := if heard then some (.input index .audio) else none

theorem keep_ofInput {g : Graph (Filter τ π)} {files : List SourceKey} {index : Nat}
    {key : SourceKey} (hi : files[index]? = some key) (heard : Bool) :
    (ofInput index key.kind heard).Keep g files key heard where
  video_isSome := by
    rw [ofInput]
    cases key.kind.hasVideo <;> rfl
  audio_isSome := by
    rw [ofInput]
    cases heard <;> rfl
  video p hp := by
    obtain ⟨_, ⟨⟩⟩ := Option.ite_none_right_eq_some.1 (Option.mem_def.1 hp)
    exact ⟨index, key, hi, SourceKey.same_iff.2 rfl, .self⟩
  audio p hp := by
    obtain ⟨_, ⟨⟩⟩ := Option.ite_none_right_eq_some.1 (Option.mem_def.1 hp)
    exact ⟨index, key, hi, SourceKey.same_iff.2 rfl, .self⟩

end Spares

variable [Timescale τ] [PixelCount π]

namespace Workshop

/-- What a workshop holds after requests: every canvas was made once and every file is an input,
in the order in which they were asked for first, and a spare is kept of each. -/
structure Stocked (fps : τ) (heard : SourceKey → Bool) (requests : List (Request π))
    (w : Workshop τ π) : Prop where
  fps_eq : w.frame.fps = fps
  makers : w.graph.makers = (Request.canvases requests).flatMap (Filter.ground fps)
  inputs : w.graph.inputs = (Request.files requests).map (SourceKey.input fps)
  canvas_keys : (w.canvases.map Prod.fst).Perm (Request.canvases requests)
  canvases : ∀ e ∈ w.canvases, w.graph.FromCanvas fps e.1 e.2
  source_keys : (w.sources.map fun e => e.1.identity).Perm
    ((Request.files requests).map SourceKey.identity)
  sources : ∀ e ∈ w.sources, e.2.Keep w.graph (Request.files requests) e.1 (heard e.1)

theorem stocked_start (heard : SourceKey → Bool) (frame : Frame τ) (sampleRate : Nat) :
    (start frame sampleRate : Workshop τ π).Stocked frame.fps heard [] where
  fps_eq := rfl
  makers := rfl
  inputs := rfl
  canvas_keys := .nil
  canvases := by simp [start]
  source_keys := .nil
  sources := by simp [start]

namespace Stocked

variable {fps : τ} {heard : SourceKey → Bool} {requests : List (Request π)} {w : Workshop τ π}

/-- Splits and drains make nothing and read no files. -/
theorem plumb (h : w.Stocked fps heard requests) {g : Graph (Filter τ π)}
    {more : List (Stage (Filter τ π))} (hg : w.graph.ExtendsBy g more)
    (hm : ∀ s ∈ more, s.filter.isPlumbing = true) :
    ({ w with graph := g } : Workshop τ π).Stocked fps heard requests where
  fps_eq := h.fps_eq
  makers := by
    have hnone : (more.map Stage.filter).filter (fun f => !f.isPlumbing) = [] := by
      simpa [List.filter_eq_nil_iff] using hm
    rw [hg.makers, hnone, List.append_nil]
    exact h.makers
  inputs := hg.inputs.trans h.inputs
  canvas_keys := h.canvas_keys
  canvases e he := (h.canvases e he).mono hg.subset
  source_keys := h.source_keys
  sources e he := (h.sources e he).mono hg.subset (List.prefix_refl _)

/-- Requests for the same canvases and files leave a workshop with the same. -/
theorem congr {requests' : List (Request π)} (h : w.Stocked fps heard requests)
    (hc : Request.canvases requests' = Request.canvases requests)
    (hf : Request.files requests' = Request.files requests) : w.Stocked fps heard requests' where
  fps_eq := h.fps_eq
  makers := hc ▸ h.makers
  inputs := hf ▸ h.inputs
  canvas_keys := hc ▸ h.canvas_keys
  canvases := h.canvases
  source_keys := hf ▸ h.source_keys
  sources := hf ▸ h.sources

/-- The order of the canvases that are kept does not matter. -/
theorem permCanvases (h : w.Stocked fps heard requests) {l : List (CanvasKey π × Pad)}
    (hp : w.canvases.Perm l) :
    ({ w with canvases := l } : Workshop τ π).Stocked fps heard requests :=
  { h with
    canvas_keys := (hp.map Prod.fst).symm.trans h.canvas_keys
    canvases := fun e he => h.canvases e (hp.mem_iff.2 he) }

/-- The order of the files that are kept does not matter. -/
theorem permSources (h : w.Stocked fps heard requests) {l : List (SourceKey × Spares)}
    (hp : w.sources.Perm l) :
    ({ w with sources := l } : Workshop τ π).Stocked fps heard requests :=
  { h with
    source_keys := (hp.map fun e => e.1.identity).symm.trans h.source_keys
    sources := fun e he => h.sources e (hp.mem_iff.2 he) }

/-- A file may be kept under another spelling of its path. -/
theorem respell {a b : SourceKey} {sp : Spares} {rest : List (SourceKey × Spares)}
    (h : ({ w with sources := (a, sp) :: rest } : Workshop τ π).Stocked fps heard requests)
    (hs : a.same b = true) (hheard : heard a = heard b) :
    ({ w with sources := (b, sp) :: rest } : Workshop τ π).Stocked fps heard requests :=
  { h with
    source_keys := by
      have hkeys := h.source_keys
      rw [List.map_cons, SourceKey.same_iff.1 hs] at hkeys
      exact hkeys
    sources := by
      intro e he
      rcases List.mem_cons.1 he with rfl | he
      · rw [← hheard]
        exact (h.sources _ List.mem_cons_self).same hs
      · exact h.sources e (List.mem_cons_of_mem _ he) }

/-- A canvas that was not asked for is made and kept. -/
theorem addCanvas (h : w.Stocked fps heard requests) {r : Request π} {key : CanvasKey π}
    (hr : r.canvasKey? = some key) (hs : r.sourceKey? = none)
    (hasked : key ∉ Request.canvases requests) {g : Graph (Filter τ π)} {generated p : Pad}
    (hg : w.graph.ExtendsBy g [⟨[], .color key.width key.height key.color fps, [generated]⟩,
      ⟨[generated], .rgba, [p]⟩]) :
    ({ w with graph := g, canvases := (key, p) :: w.canvases } : Workshop τ π).Stocked fps heard
      (requests ++ [r]) where
  fps_eq := h.fps_eq
  makers := by
    rw [(Request.canvases_concat requests hr).2 hasked, List.flatMap_append, hg.makers, h.makers]
    rfl
  inputs := by
    rw [Request.files_concat_none requests hs]
    exact hg.inputs.trans h.inputs
  canvas_keys := by
    rw [(Request.canvases_concat requests hr).2 hasked]
    exact (h.canvas_keys.cons key).trans (List.perm_append_singleton key _).symm
  canvases := by
    intro e he
    rcases List.mem_cons.1 he with rfl | he
    · exact ⟨generated, p, hg.added (by simp), hg.added (by simp), .self⟩
    · exact (h.canvases e he).mono hg.subset
  source_keys := by
    rw [Request.files_concat_none requests hs]
    exact h.source_keys
  sources := by
    rw [Request.files_concat_none requests hs]
    exact fun e he => (h.sources e he).mono hg.subset (List.prefix_refl _)

/-- A file that was not asked for becomes an input, and its streams are kept. -/
theorem addFile (h : w.Stocked fps heard requests) {r : Request π} {key : SourceKey}
    (hr : r.sourceKey? = some key) (hs : r.canvasKey? = none)
    (hasked : key.identity ∉ (Request.files requests).map SourceKey.identity) :
    ({ w with
        graph := (w.graph.addInput (key.input fps)).2
        sources := (key, Spares.ofInput w.graph.inputs.length key.kind (heard key)) :: w.sources } :
      Workshop τ π).Stocked fps heard (requests ++ [r]) where
  fps_eq := h.fps_eq
  makers := by
    rw [Request.canvases_concat_none requests hs]
    exact h.makers
  inputs := by
    rw [(Request.files_concat requests hr).2 hasked, List.map_append, ← h.inputs]
    rfl
  canvas_keys := by
    rw [Request.canvases_concat_none requests hs]
    exact h.canvas_keys
  canvases := by
    intro e he
    refine .mono ?_ (h.canvases e he)
    exact List.Subset.refl _
  source_keys := by
    rw [(Request.files_concat requests hr).2 hasked, List.map_append, List.map_cons]
    exact (h.source_keys.cons _).trans (List.perm_append_singleton _ _).symm
  sources := by
    rw [(Request.files_concat requests hr).2 hasked]
    intro e he
    rcases List.mem_cons.1 he with rfl | he
    · refine Spares.keep_ofInput ?_ _
      rw [h.inputs, List.length_map, List.getElem?_concat_length]
    · exact (h.sources e he).mono (List.Subset.refl _) (List.prefix_append _ _)

/-- A canvas that is asked for is a spare, or was made. -/
theorem canvasStream (h : w.Stocked fps heard requests) {r : Request π} {key : CanvasKey π}
    {p : Pad} {w' : Workshop τ π} (hr : r.canvasKey? = some key) (hs : r.sourceKey? = none)
    (hc : Compile.canvasStream key w = .ok (p, w')) :
    ({ w' with canvases := (key, p) :: w'.canvases } : Workshop τ π).Stocked fps heard
      (requests ++ [r]) := by
  have hmem : ∀ k, k ∈ w.canvases.map Prod.fst ↔ k ∈ Request.canvases requests :=
    fun k => h.canvas_keys.mem_iff
  rw [Compile.canvasStream, Compile.get_bind] at hc
  cases ht : takeEntry (· == key) w.canvases with
  | some found =>
      obtain ⟨spare, others⟩ := found
      simp only [ht] at hc
      cases hc
      obtain ⟨key', hk, hp⟩ := takeEntry_eq_some ht
      obtain rfl : key' = key := by simpa using hk
      have hasked : key' ∈ Request.canvases requests :=
        (hmem key').1 (List.mem_map_of_mem (f := Prod.fst) (hp.mem_iff.2 List.mem_cons_self))
      exact (h.permCanvases hp).congr ((Request.canvases_concat requests hr).1 hasked)
        (Request.files_concat_none requests hs)
  | none =>
      have hasked : key ∉ Request.canvases requests := by
        intro hasked
        obtain ⟨e, he, rfl⟩ := List.mem_map.1 ((hmem key).2 hasked)
        simpa using takeEntry_eq_none ht e he
      simp only [ht] at hc
      obtain ⟨generated, w₁, hgenerated, hformatted⟩ := Compile.bind_eq_ok.1 hc
      obtain ⟨g₁, rfl, hg₁⟩ := Compile.join_eq_ok hgenerated
      obtain ⟨g₂, rfl, hg₂⟩ := Compile.join_eq_ok hformatted
      rw [h.fps_eq] at hg₁
      exact h.addCanvas hr hs hasked (hg₁.trans hg₂)

/-- The spares of a file that is asked for are known, or the file is added as an input. -/
theorem spares (h : w.Stocked fps heard requests) {r : Request π} {key : SourceKey} {sp : Spares}
    {w' : Workshop τ π} (hr : r.sourceKey? = some key) (hs : r.canvasKey? = none)
    (hsame : ∀ a b, a.same b = true → heard a = heard b)
    (hc : Compile.spares key (heard key) w = .ok (sp, w')) :
    ({ w' with sources := (key, sp) :: w'.sources } : Workshop τ π).Stocked fps heard
      (requests ++ [r]) := by
  have hmem : ∀ i, i ∈ (w.sources.map fun e => e.1.identity) ↔
      i ∈ (Request.files requests).map SourceKey.identity :=
    fun i => h.source_keys.mem_iff
  rw [Compile.spares, Compile.get_bind] at hc
  cases ht : takeEntry key.same w.sources with
  | some found =>
      obtain ⟨spares, others⟩ := found
      simp only [ht] at hc
      cases hc
      obtain ⟨key', hk, hp⟩ := takeEntry_eq_some ht
      have hk' : key'.same key = true := by rwa [SourceKey.same_comm]
      have hasked : key.identity ∈ (Request.files requests).map SourceKey.identity := by
        rw [← hmem, SourceKey.same_iff.1 hk]
        exact List.mem_map_of_mem (f := fun e => e.1.identity) (hp.mem_iff.2 List.mem_cons_self)
      exact ((h.permSources hp).respell hk' (hsame key' key hk')).congr
        (Request.canvases_concat_none requests hs) ((Request.files_concat requests hr).1 hasked)
  | none =>
      have hasked : key.identity ∉ (Request.files requests).map SourceKey.identity := by
        rw [← hmem, List.mem_map]
        rintro ⟨e, he, hid⟩
        have hne := takeEntry_eq_none ht e he
        rw [SourceKey.same_iff.2 hid.symm] at hne
        cases hne
      simp only [ht, h.fps_eq] at hc
      cases hc
      exact h.addFile hr hs hasked

/-- A spare canvas may be replaced by a half of it. -/
theorem splitCanvas {key : CanvasKey π} {p q : Pad} {rest : List (CanvasKey π × Pad)}
    (h : ({ w with canvases := (key, p) :: rest } : Workshop τ π).Stocked fps heard requests)
    (hq : w.graph.SplitFrom p q) :
    ({ w with canvases := (key, q) :: rest } : Workshop τ π).Stocked fps heard requests :=
  { h with
    canvas_keys := h.canvas_keys
    canvases := by
      intro e he
      rcases List.mem_cons.1 he with rfl | he
      · exact (h.canvases _ List.mem_cons_self).split hq
      · exact h.canvases e (List.mem_cons_of_mem _ he) }

/-- The spares of a file may be replaced by what is left of them. -/
theorem splitSpares {key : SourceKey} {sp left : Spares} {rest : List (SourceKey × Spares)}
    (h : ({ w with sources := (key, sp) :: rest } : Workshop τ π).Stocked fps heard requests)
    (hl : left.Keep w.graph (Request.files requests) key (heard key)) :
    ({ w with sources := (key, left) :: rest } : Workshop τ π).Stocked fps heard requests :=
  { h with
    source_keys := h.source_keys
    sources := by
      intro e he
      rcases List.mem_cons.1 he with rfl | he
      · exact hl
      · exact h.sources e (List.mem_cons_of_mem _ he) }

/-- A canvas is handed out, and a spare of it is kept. -/
theorem canvas (h : w.Stocked fps heard requests) {tag : Tag} {width height : Length π}
    {color : Option Color} {p : Pad} {w' : Workshop τ π}
    (hc : Compile.canvas tag width height color w = .ok (p, w')) :
    w'.Stocked fps heard (requests ++ [.canvas tag width height color]) ∧
      ∃ key, (Request.canvas tag width height color).canvasKey? = some key ∧
        w'.graph.FromCanvas fps key p := by
  obtain ⟨pixels, w₁, hconcrete, hrest⟩ := Compile.bind_eq_ok.1 (Compile.counted_bind_eq_ok.1 hc).2
  obtain ⟨hwidth, rfl⟩ := Compile.concrete_eq_ok hconcrete
  obtain ⟨lines, w₂, hconcrete', hrest'⟩ := Compile.bind_eq_ok.1 hrest
  obtain ⟨hheight, rfl⟩ := Compile.concrete_eq_ok hconcrete'
  have hr : (Request.canvas tag width height color).canvasKey? =
      some ⟨pixels, lines, Color.orTransparent color⟩ := by
    simp [Request.canvasKey?, hwidth, hheight]
  split at hrest'
  · cases hrest'
  obtain ⟨stream, w₃, hstream, hrest''⟩ := Compile.bind_eq_ok.1 hrest'
  obtain ⟨⟨taken, spare⟩, w₄, hsplit, hkeep⟩ := Compile.bind_eq_ok.1 hrest''
  obtain ⟨g, rfl, hg⟩ := Compile.split_eq_ok hsplit
  cases hkeep
  have hstocked := (h.canvasStream hr rfl hstream).plumb hg (by simp [Filter.isPlumbing])
  have hs := hg.added List.mem_cons_self
  refine ⟨hstocked.splitCanvas (.half .self hs (.inr rfl)), _, hr, ?_⟩
  exact (hstocked.canvases _ List.mem_cons_self).split (.half .self hs (.inl rfl))

/-- The streams of a file are handed out, and spares of them are kept. -/
theorem source (h : w.Stocked fps heard requests) {path : Path} {kind : MediaKind}
    {wantVideo wantAudio : Bool} {video audio : Option Pad} {w' : Workshop τ π}
    (hsame : ∀ a b, a.same b = true → heard a = heard b) (hheard : heard ⟨path, kind⟩ = wantAudio)
    (hc : Compile.source path kind wantVideo wantAudio w = .ok ((video, audio), w')) :
    w'.Stocked fps heard (requests ++ [.source path kind wantVideo wantAudio]) ∧
      Request.Answered w'.graph fps
        (Request.files (requests ++ [.source path kind wantVideo wantAudio]))
        (.source path kind wantVideo wantAudio) ⟨video, audio⟩ := by
  subst hheard
  obtain ⟨sp, w₁, hspares, hrest⟩ := Compile.bind_eq_ok.1 hc
  obtain ⟨⟨_, videoLeft⟩, w₂, hvideo, hrest'⟩ := Compile.bind_eq_ok.1 hrest
  obtain ⟨⟨_, audioLeft⟩, w₃, haudio, hkeep⟩ := Compile.bind_eq_ok.1 hrest'
  obtain ⟨g, more, rfl, hg, hm, hv, hvLeft, hvFrom⟩ := Compile.handOut_eq_ok hvideo
  obtain ⟨g', more', rfl, hg', hm', ha, haLeft, haFrom⟩ := Compile.handOut_eq_ok haudio
  cases hkeep
  have hstocked := ((h.spares (r := .source path kind wantVideo (heard ⟨path, kind⟩))
    rfl rfl hsame hspares).plumb hg hm).plumb hg' hm'
  have hkept := hstocked.sources _ List.mem_cons_self
  have hvideoFrom : ∀ q, q ∈ video ∨ q ∈ videoLeft → g'.FromFile (Request.files
      (requests ++ [.source path kind wantVideo (heard ⟨path, kind⟩)])) ⟨path, kind⟩ .video q := by
    intro q hq
    obtain ⟨p, hp, hs⟩ := hvFrom q hq
    exact (hkept.video p hp).split (hs.mono hg'.subset)
  have haudioFrom : ∀ q, q ∈ audio ∨ q ∈ audioLeft → g'.FromFile (Request.files
      (requests ++ [.source path kind wantVideo (heard ⟨path, kind⟩)])) ⟨path, kind⟩ .audio q := by
    intro q hq
    obtain ⟨p, hp, hs⟩ := haFrom q hq
    exact (hkept.audio p hp).split hs
  refine ⟨splitSpares hstocked ⟨?_, ?_, ?_, ?_⟩, ?_, ?_, ?_, ?_⟩
  · exact hvLeft.trans hkept.video_isSome
  · exact haLeft.trans hkept.audio_isSome
  · exact fun p hp => hvideoFrom p (.inr hp)
  · exact fun p hp => haudioFrom p (.inr hp)
  · rw [hv]
    exact congrArg _ hkept.video_isSome
  · rw [ha, hkept.audio_isSome, Bool.and_self]
  · exact fun p hp => hvideoFrom p (.inl hp)
  · exact fun p hp => haudioFrom p (.inl hp)

/-- What a workshop holds after one more request. -/
theorem serve (h : w.Stocked fps heard requests) {r : Request π} {st : Streams}
    {w' : Workshop τ π} (hsame : ∀ a b, a.same b = true → heard a = heard b)
    (hr : r.Heeds heard) (hc : r.serve w = .ok (st, w')) :
    w'.Stocked fps heard (requests ++ [r]) ∧
      r.Answered w'.graph fps (Request.files (requests ++ [r])) st := by
  cases r with
  | canvas tag width height color =>
      obtain ⟨p, w₁, hcanvas, hpure⟩ := Compile.bind_eq_ok.1 hc
      cases hpure
      obtain ⟨hstocked, key, hk, hp⟩ := h.canvas hcanvas
      exact ⟨hstocked, key, p, hk, rfl, hp⟩
  | source path kind wantVideo wantAudio =>
      obtain ⟨⟨video, audio⟩, w₁, hsource, hpure⟩ := Compile.bind_eq_ok.1 hc
      cases hpure
      exact h.source hsame hr hsource

/-- What a workshop holds after many more requests. -/
theorem serveAll {more : List (Request π)} {answers : List Streams} {w' : Workshop τ π}
    (h : w.Stocked fps heard requests) (hsame : ∀ a b, a.same b = true → heard a = heard b)
    (hr : ∀ r ∈ more, r.Heeds heard) (hc : Request.serveAll more w = .ok (answers, w')) :
    w'.Stocked fps heard (requests ++ more) ∧
      List.Forall₂ (Request.Answered w'.graph fps (Request.files (requests ++ more)))
        more answers := by
  induction more generalizing requests w answers with
  | nil =>
      cases hc
      rw [List.append_nil]
      exact ⟨h, .nil⟩
  | cons r more ih =>
      obtain ⟨st, w₁, hfirst, hrest⟩ := Compile.bind_eq_ok.1 hc
      obtain ⟨others, w₂, hothers, hpure⟩ := Compile.bind_eq_ok.1 hrest
      cases hpure
      obtain ⟨hstocked, hanswer⟩ := h.serve hsame (hr r List.mem_cons_self) hfirst
      obtain ⟨hall, hanswers⟩ :=
        ih hstocked (fun r' hr' => hr r' (List.mem_cons_of_mem _ hr')) hothers
      have hfiles := Request.files_prefix (requests ++ [r]) more
      have hg := Request.adds_serveAll more _ _ _ hothers
      rw [List.append_assoc] at hall hanswers hfiles
      exact ⟨hall, .cons (hanswer.mono hg.stages.subset hfiles) hanswers⟩

end Stocked

/-! ### What is handed out and what is drained -/

/-- The drains of pads. -/
def drains (kind : StreamKind) (pads : List Pad) : List (Stage (Filter τ π)) :=
  pads.map fun p => ⟨[p], .sink kind, []⟩

omit [Timescale τ] [PixelCount π] in
theorem extendsBy_drain (kind : StreamKind) (g : Graph (Filter τ π)) (pads : List Pad) :
    g.ExtendsBy (drain kind g pads) (drains kind pads) := by
  induction pads generalizing g with
  | nil => exact .refl g
  | cons p pads ih =>
      have hfirst : g.ExtendsBy (g.sink p (.sink kind)) [⟨[p], .sink kind, []⟩] := ⟨rfl, rfl⟩
      exact hfirst.trans (ih _)

end Workshop

namespace Streams

/-- The pads of the streams that are there. -/
def pads (st : Streams) : List Pad :=
  st.video.toList ++ st.audio.toList

end Streams

namespace Request

open Compile

/-- The pads that are handed out are at hand after a request. -/
theorem moves_serve (frame : Frame τ) (sampleRate : Nat) (r : Request π) :
    Moves (.unread frame sampleRate) (r.serve : Compile τ π Streams) 0
      fun st out => out.map Prod.fst = ↑st.pads := by
  cases r with
  | canvas tag width height color =>
      refine Moves.bind_all (moves_canvas tag width height color) ?_
      rintro p _ ⟨w, h, hw, hh, _, rfl⟩
      exact Moves.pure rfl
  | source path kind wantVideo wantAudio =>
      refine Moves.bind_all (moves_source wantVideo trivial) ?_
      rintro ⟨video, audio⟩ _ ⟨heard, x, y, _, hx, hy, rfl⟩
      exact Moves.pure (CarryingStreams.map_fst (c := ⟨_, _⟩) ⟨x, y, hx, hy, rfl⟩)

theorem moves_serveAll (frame : Frame τ) (sampleRate : Nat) : ∀ requests : List (Request π),
    Moves (.unread frame sampleRate) (serveAll requests : Compile τ π (List Streams)) 0
      fun answers out => out.map Prod.fst = ↑(answers.flatMap Streams.pads)
  | [] => Moves.pure rfl
  | r :: rest => by
      refine Moves.bind_all (moves_serve frame sampleRate r) ?_
      intro st out hout
      refine Moves.bind_zero (moves_serveAll frame sampleRate rest) ?_
      intro answers out' hout'
      refine Moves.pure ?_
      rw [Multiset.map_add, hout, hout', List.flatMap_cons, ← Multiset.coe_add, add_comm]

/-- What comes of requests: every canvas is generated once and every file is an input once, each in
the order of first requests. What is handed out is distinct, comes from what was asked for, and is read
by nothing. One spare is kept of each canvas and of each stream of a file, and all are drained. -/
structure Reused (requests : List (Request π)) (answers : List Streams) (fps : τ)
    (w : Workshop τ π) : Prop where
  generated : w.finish.makers = (canvases requests).flatMap (Filter.ground fps)
  inputs : w.finish.inputs = (files requests).map (SourceKey.input fps)
  answered : List.Forall₂ (Answered w.finish fps (files requests)) requests answers
  distinct : ((answers.flatMap Streams.pads).map Pad.label).Nodup
  unread : ∀ p ∈ answers.flatMap Streams.pads, ∀ s ∈ w.finish.stages, ∀ q ∈ s.inputs,
    q.label ≠ p.label
  kept_canvases : (w.canvases.map Prod.fst).Perm (canvases requests)
  kept_files : (w.sources.map fun e => e.1.identity).Perm
    ((files requests).map SourceKey.identity)
  kept_streams : ∀ e ∈ w.sources,
    e.2.video.isSome = e.1.kind.hasVideo ∧ e.2.audio.isSome = heard requests e.1
  drained : ∃ videos audios, videos.Perm w.spareVideos ∧ audios.Perm w.spareAudios ∧
    w.finish.stages =
      w.graph.stages ++ (Workshop.drains .video videos ++ Workshop.drains .audio audios)

/-- Requests are served from what there is: nothing is generated or read twice. -/
theorem reused_of_agrees {requests : List (Request π)} {answers : List Streams} {frame : Frame τ}
    {sampleRate : Nat} {w : Workshop τ π} (h : ∀ r ∈ requests, ∀ r' ∈ requests, r.Agrees r')
    (hc : serveAll requests (.start frame sampleRate) = .ok (answers, w)) :
    Reused requests answers frame.fps w := by
  obtain ⟨hstocked, hanswered⟩ := (Workshop.stocked_start (heard requests) frame
    sampleRate).serveAll (fun a b => heard_same) (fun r hr => heeds_of_agrees h hr) hc
  rw [List.nil_append] at hstocked hanswered
  have hdrained := (Workshop.extendsBy_drain .video w.graph (sortByLabel w.spareVideos)).trans
    (Workshop.extendsBy_drain .audio _ (sortByLabel w.spareAudios))
  have hplumb : ∀ s ∈ Workshop.drains .video (sortByLabel w.spareVideos) ++
      Workshop.drains .audio (sortByLabel w.spareAudios),
      (s : Stage (Filter τ π)).filter.isPlumbing = true := by
    intro s hs
    rcases List.mem_append.1 hs with hs | hs <;> obtain ⟨p, _, rfl⟩ := List.mem_map.1 hs <;> rfl
  obtain ⟨hlinear, -, -⟩ :=
    (moves_serveAll frame sampleRate requests).closed hc _ fun _ hout => hout
  obtain ⟨-, hnodup, hdisjoint⟩ := Multiset.nodup_add.1 hlinear.nodup
  have hfinished := hstocked.plumb hdrained hplumb
  exact
    { generated := hfinished.makers
      inputs := hfinished.inputs
      answered := hanswered.imp fun r st hr => hr.mono hdrained.subset (List.prefix_refl _)
      distinct := (Multiset.coe_nodup.1 hnodup).map Pad.label_injective
      unread := by
        intro p hp s hs q hq hlabel
        rw [Pad.label_injective hlabel] at hq
        exact Multiset.disjoint_left.1 hdisjoint
          (Multiset.mem_coe.2 (List.mem_flatMap.2 ⟨s, hs, hq⟩)) (Multiset.mem_coe.2 hp)
      kept_canvases := hstocked.canvas_keys
      kept_files := hstocked.source_keys
      kept_streams := fun e he =>
        ⟨(hstocked.sources e he).video_isSome, (hstocked.sources e he).audio_isSome⟩
      drained := ⟨_, _, sortByLabel_perm _, sortByLabel_perm _, hdrained.stages⟩ }

/-- Two canvases of one color, and a file in two spellings between its uses as a picture. -/
def mixed : List (Request Int) :=
  [.canvas .seq (.pixel 100) (.pixel 50) none,
    .source ⟨"b/a.mp4"⟩ .video true true,
    .source ⟨"b/a.mp4"⟩ .image true false,
    .canvas .prl (.pixel 100) (.pixel 50) (some .transparent),
    .source ⟨"b//a.mp4"⟩ .video false true,
    .source ⟨"b/a.mp4"⟩ .image false false]

theorem reused_mixed : ∃ answers w,
    serveAll mixed (.start ⟨⟨320, 180⟩, (25 : ℚ)⟩ 48000) = .ok (answers, w) ∧
      Reused mixed answers 25 w ∧ (canvases mixed).length = 1 ∧ (files mixed).length = 2 := by
  have hrun : (serveAll mixed (.start ⟨⟨320, 180⟩, (25 : ℚ)⟩ 48000)).toOption.map
      (fun result => result.1.length) = some 6 := by
    decide +kernel
  have hagrees : ∀ r ∈ mixed, ∀ r' ∈ mixed, r.Agrees r' := by
    simp [mixed, Agrees, SourceKey.same]
  obtain ⟨⟨answers, w⟩, hc, -⟩ := exists_ok_of_map hrun
  exact ⟨answers, w, hc, reused_of_agrees hagrees hc, by decide +kernel, by decide +kernel⟩

end Request
end Montage
