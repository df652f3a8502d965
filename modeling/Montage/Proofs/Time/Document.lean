import Montage.Proofs.Time.Length

/-!
# How long the streams of documents last

**Input.** A document, a probe, and a clock that agrees with the probe.

**Algorithm.** Every node of the scene of the document is ready to be timed: its units are resolved,
its media are known to the clock, and it is open only because its children are.

**Results.**
* `Document.streams_measured`: the sound and the picture of every node last as long as its style says,
  if a picture ends with its base.
* `Document.picture_outlasts`: if it ended with the last of its layers, a child that is seen for longer
  would prolong it.
-/

namespace Montage

variable {π : Type}

/-- The streams of a file last as long as a probe tells; a picture is repeated without end. -/
structure Clock.Tells (clock : Clock) (probe : Probe ℚ) : Prop where
  media : ∀ path info t, probe path = .ok info → info.duration = some t →
    ∀ kind, clock [] path.components kind = ↑t
  images : ∀ (fps : ℚ) components kind,
    clock (Compile.inputOptions fps .image) components kind = ⊤

/-- No time is negative. -/
structure Style.IsForward (style : Style ℚ π) : Prop where
  object : 0 ≤ style.objectLength.secondsOrZero
  marginStart : 0 ≤ style.timeMarginStart.secondsOrZero
  marginEnd : 0 ≤ style.timeMarginEnd.secondsOrZero
  paddingStart : 0 ≤ style.timePaddingStart.secondsOrZero
  paddingEnd : 0 ≤ style.timePaddingEnd.secondsOrZero

instance decidableIsForward : DecidablePred (Style.IsForward (π := π)) := fun style =>
  decidable_of_iff
    (0 ≤ style.objectLength.secondsOrZero ∧ 0 ≤ style.timeMarginStart.secondsOrZero ∧
      0 ≤ style.timeMarginEnd.secondsOrZero ∧ 0 ≤ style.timePaddingStart.secondsOrZero ∧
        0 ≤ style.timePaddingEnd.secondsOrZero)
    ⟨fun ⟨a, b, c, d, e⟩ => ⟨a, b, c, d, e⟩, fun ⟨a, b, c, d, e⟩ => ⟨a, b, c, d, e⟩⟩

namespace Scene

/-- A leaf is not longer than its media by a millionth of a second or less. -/
def IsCovered : Scene ℚ π → Prop
  | leaf _ kind _ style =>
      kind.hasDuration = true → ∀ t ∈ style.objectLength.seconds?, ∀ d ∈ style.source.duration,
        t ≤ d ∨ d + 1e-6 < t
  | container .. => True

instance decidableIsCovered : DecidablePred (IsCovered (π := π))
  | leaf _ kind _ style =>
      inferInstanceAs (Decidable (kind.hasDuration = true → ∀ t ∈ style.objectLength.seconds?,
        ∀ d ∈ style.source.duration, t ≤ d ∨ d + 1e-6 < t))
  | container .. => inferInstanceAs (Decidable True)

/-- No time in a scene is negative, and all leaves are covered. -/
def IsRegular (root : Scene ℚ π) : Prop :=
  ∀ node : Scene ℚ π, node.Within root → node.style.IsForward ∧ node.IsCovered

instance decidableIsRegular (root : Scene ℚ π) : Decidable root.IsRegular :=
  inferInstanceAs (Decidable (∀ node : Scene ℚ π, node.Within root →
    node.style.IsForward ∧ node.IsCovered))

end Scene

theorem Span.IsKnown.isTime {t : Span ℚ} (h : t.IsKnown) (h0 : 0 ≤ t.secondsOrZero) : t.IsTime := by
  obtain ⟨x, rfl⟩ := h
  exact ⟨x, rfl, h0⟩

namespace Style

variable {style : Style ℚ π}

theorem IsResolved.isPaced (h : style.IsResolved) (hf : style.IsForward) : style.IsPaced :=
  ⟨h.marginStart.isTime hf.marginStart, h.marginEnd.isTime hf.marginEnd,
    h.paddingStart.isTime hf.paddingStart, h.paddingEnd.isTime hf.paddingEnd⟩

theorem IsResolved.isTime_or_fit (h : style.IsResolved) (hf : style.IsForward) :
    style.objectLength.IsTime ∨ style.objectLength = .fit :=
  h.object.imp_left fun hknown => hknown.isTime hf.object

end Style

section

variable [PixelCount π] {clock : Clock} {law : OverlayLaw} {probe : Probe ℚ} {frame : Frame ℚ}
  {sampleRate : Nat}

omit [PixelCount π] in
/-- The media of a built leaf last as the clock tells. -/
theorem Leaf.supplied_of_probed (hc : clock.Tells probe) {kind : MediaKind} {locator : Locator}
    {style : Style ℚ π}
    (hm : kind.hasDuration = true → ∃ path, locator = .path path ∧ style.IsProbed probe path)
    (hcover : kind.hasDuration = true → ∀ t ∈ style.objectLength.seconds?,
      ∀ d ∈ style.source.duration, t ≤ d ∨ d + 1e-6 < t) :
    Supplied (.timed clock law frame sampleRate) kind locator style := by
  constructor
  · rintro path rfl rfl
    exact hc.images frame.fps path.components .video
  · rintro path hpath hd
    obtain ⟨path', hpath', p, info, d, hsame, hprobe, hinfo, hdur⟩ := hm hd
    obtain rfl : path = path' := by
      rw [hpath] at hpath'
      cases hpath'
      rfl
    have hcomponents : p.components = path.components := by
      simpa [Path.same] using hsame
    refine ⟨d, hdur, ?_, fun t ht => hcover hd t (by rw [ht]; rfl) d hdur⟩
    intro k
    have hclock := hc.media p info d hprobe hinfo k
    rw [hcomponents] at hclock
    cases kind with
    | video => exact hclock
    | audio => exact hclock
    | image => cases hd
    | text => cases hd

/-- All nodes of a built scene are ready. -/
theorem Scene.IsRegular.allReady (hc : clock.Tells probe) {root : Scene ℚ π} (hr : root.IsRegular)
    (hb : ∀ node : Scene ℚ π, node.Within root → node.IsBuilt probe) :
    root.AllReady (.timed clock law frame sampleRate) := by
  intro node hn
  obtain ⟨hforward, hcovered⟩ := hr node hn
  have hbuilt := hb node hn
  cases hbuilt with
  | leaf hres hm =>
      refine .leaf (hres.isPaced hforward) (hres.isTime_or_fit hforward) ?_
      exact Leaf.supplied_of_probed hc hm hcovered
  | container hres hs _ =>
      exact .container (hres.isPaced hforward) (hres.isTime_or_fit hforward) hs

end

namespace Scene

/-- No child of a parallel is seen for longer than the parallel. -/
def IsContained (scene : Scene ℚ π) : Prop :=
  ∀ tag style items, (container tag style items).Within scene → style.order = .parallel →
    ∀ item ∈ items, item.shows = true →
      item.style.objectLength.lasting + ↑item.style.paddingTime + ↑item.style.marginTime ≤
        style.objectLength.lasting

theorem IsContained.item {tag : Tag} {style : Style ℚ π} {items : List (Scene ℚ π)}
    {item : Scene ℚ π} (h : (container tag style items).IsContained) (hi : item ∈ items) :
    item.IsContained :=
  fun tag style items hw => h tag style items (.item hi hw)

mutual

/-- Then a picture lasts as long as its object. -/
theorem IsContained.picture_eq : ∀ {scene : Scene ℚ π}, scene.IsContained →
    scene.picture max = scene.style.objectLength.lasting
  | leaf _ _ _ style, _ => by rw [picture, Scene.style]
  | container tag style items, h => by
      rw [picture, Scene.style]
      cases ho : style.order with
      | sequence => rfl
      | parallel =>
          exact layers_eq items (fun i hi => h.item hi) (h tag style items (.self _) ho)

theorem layers_eq {base : Lasting} : ∀ items : List (Scene ℚ π), (∀ i ∈ items, i.IsContained) →
    (∀ i ∈ items, i.shows = true →
      i.style.objectLength.lasting + ↑i.style.paddingTime + ↑i.style.marginTime ≤ base) →
        layers max base items = base
  | [], _, _ => by rw [layers]
  | item :: rest, h, hle => by
      have hitem := (h item List.mem_cons_self).picture_eq
      have hrest := layers_eq rest (fun i hi => h i (List.mem_cons_of_mem _ hi))
        fun i hi => hle i (List.mem_cons_of_mem _ hi)
      rw [layers, hitem]
      split
      · next hshows => rwa [max_eq_left (hle item List.mem_cons_self hshows)]
      · exact hrest

end

end Scene

namespace Document

variable [PixelCount π] {d : Document ℚ} {probe : Probe ℚ} {root : Scene ℚ π} {clock : Clock}

/-- How long the streams of a document last, if a picture does not end before its base. -/
theorem streams_lasting {law : OverlayLaw} (hlaw : ∀ base layer, base ≤ law base layer)
    (hfps : 0 < d.frame.fps) (hd : d.scene probe = .ok root) (hclock : clock.Tells probe)
    (hregular : root.IsRegular) (sampleRate : Nat) :
    let r : Reading Lasting ℚ π := (Studio.timed clock law d.frame sampleRate).toReading
    (∀ call, Visits root (.start d.frame sampleRate) call →
      (∀ p ∈ call.streams.audio, call.after.graph.value r p =
        some (call.node.style.objectLength.lasting + ↑call.node.style.paddingTime)) ∧
      ∀ p ∈ call.streams.video, call.after.graph.value r p =
        some (call.node.picture law + ↑call.node.style.paddingTime)) ∧
    ∀ film, Film.ofScene root d.frame sampleRate = .ok film →
      root.style.objectLength.lasting + ↑root.style.paddingTime + ↑root.style.marginTime =
        ↑film.duration ∧
      (∀ p ∈ film.audio, film.graph.value r p = some ↑film.duration) ∧
      ∀ p ∈ film.video, film.graph.value r p =
        some (root.picture law + ↑root.style.paddingTime + ↑root.style.marginTime) := by
  intro r
  let s : Studio Lasting ℚ π := .timed clock law d.frame sampleRate
  have hready : root.AllReady s := hregular.allReady hclock (isBuilt_scene hfps hd)
  have hheard : root.Heard s := fun _ _ _ _ _ _ _ => trivial
  constructor
  · intro call hcall
    obtain ⟨c, hm, hcarry⟩ := hcall.measured (s := s) rfl hlaw hheard hready
    refine ⟨fun p hp => ?_, fun p hp => ?_⟩
    · obtain ⟨a, ha, hvalue⟩ := hcarry.value_audio hp
      rw [← hm.audio a ha]
      exact hvalue
    · obtain ⟨v, hv, hvalue⟩ := hcarry.value_video hp
      rw [← hm.video v hv]
      exact hvalue
  · exact fun film hfilm => Film.measured (s := s) rfl hlaw hfilm hheard hready

/-- The sound and the picture of every node of a document last as long as its object and its paddings,
and those of the film as long as the document, if a picture ends with its base. If it does not end
before its layers either, the sound lasts as long, and so does the picture if no child of a parallel in
it is seen for longer than the parallel; where children are seen for longer, pictures are laid over
each other until the last has ended. -/
theorem streams_measured (hfps : 0 < d.frame.fps) (hd : d.scene probe = .ok root)
    (hclock : clock.Tells probe) (hregular : root.IsRegular) (sampleRate : Nat) :
    let r : Reading Lasting ℚ π := (Studio.timed clock .withBase d.frame sampleRate).toReading
    let r' : Reading Lasting ℚ π := (Studio.timed clock max d.frame sampleRate).toReading
    ((∀ call, Visits root (.start d.frame sampleRate) call →
        ∀ p, p ∈ call.streams.audio ∨ p ∈ call.streams.video → call.after.graph.value r p =
          some (call.node.style.objectLength.lasting + ↑call.node.style.paddingTime)) ∧
      ∀ film, Film.ofScene root d.frame sampleRate = .ok film →
        ∀ p, p ∈ film.audio ∨ p ∈ film.video → film.graph.value r p = some ↑film.duration) ∧
    (∀ call, Visits root (.start d.frame sampleRate) call →
      (∀ p ∈ call.streams.audio, call.after.graph.value r' p =
        some (call.node.style.objectLength.lasting + ↑call.node.style.paddingTime)) ∧
      (∀ p ∈ call.streams.video, call.after.graph.value r' p =
        some (call.node.picture max + ↑call.node.style.paddingTime)) ∧
      (call.node.IsContained → ∀ p ∈ call.streams.video, call.after.graph.value r' p =
        some (call.node.style.objectLength.lasting + ↑call.node.style.paddingTime))) ∧
    ∀ film, Film.ofScene root d.frame sampleRate = .ok film →
      (∀ p ∈ film.audio, film.graph.value r' p = some ↑film.duration) ∧
      (∀ p ∈ film.video, film.graph.value r' p =
        some (root.picture max + ↑root.style.paddingTime + ↑root.style.marginTime)) ∧
      (root.IsContained → ∀ p ∈ film.video, film.graph.value r' p = some ↑film.duration) := by
  constructor
  · obtain ⟨hcalls, hfilms⟩ :=
      streams_lasting OverlayLaw.le_withBase hfps hd hclock hregular sampleRate
    constructor
    · intro call hcall p hp
      obtain ⟨haudio, hvideo⟩ := hcalls call hcall
      rw [Scene.picture_withBase] at hvideo
      exact hp.elim (haudio p) (hvideo p)
    · intro film hfilm p hp
      obtain ⟨hduration, haudio, hvideo⟩ := hfilms film hfilm
      rw [Scene.picture_withBase, hduration] at hvideo
      exact hp.elim (haudio p) (hvideo p)
  · obtain ⟨hcalls, hfilms⟩ :=
      streams_lasting le_max_left hfps hd hclock hregular sampleRate
    constructor
    · intro call hcall
      obtain ⟨haudio, hvideo⟩ := hcalls call hcall
      refine ⟨haudio, hvideo, fun hin => ?_⟩
      rwa [← hin.picture_eq]
    · intro film hfilm
      obtain ⟨hduration, haudio, hvideo⟩ := hfilms film hfilm
      refine ⟨haudio, hvideo, fun hin => ?_⟩
      rwa [← hduration, ← hin.picture_eq]

/-- Two seconds of a clip that lasts five. -/
def excerpt : Document ℚ where
  baseDir := ⟨""⟩
  frame := ⟨⟨320, 180⟩, 25⟩
  sheet := .empty
  root :=
    ⟨.cont, [("style", "order:parallel;object-length:2s")],
      [⟨.vid, [("src", "a.mp4")], [], none⟩], none⟩

def excerptProbe : Probe ℚ := fun _ =>
  .ok ⟨some 5, some ⟨320, 180⟩, some ⟨some "stereo", none⟩⟩

def excerptClock : Clock := fun options _ _ =>
  if options = [] then 5 else ⊤

theorem tells_excerpt : excerptClock.Tells excerptProbe where
  media path info t hprobe hduration kind := by
    cases hprobe
    cases hduration
    rfl
  images _ _ _ := rfl

theorem exists_excerpt : ∃ (root : Scene ℚ Int) (film : Film ℚ Int),
    excerpt.scene excerptProbe = .ok root ∧ root.IsRegular ∧
      Film.ofScene root excerpt.frame 48000 = .ok film ∧ film.duration = 2 ∧
        film.audio.isSome = true ∧ (film.video.bind fun p => film.graph.value
          (Studio.timed excerptClock max excerpt.frame 48000).toReading p) = some 5 := by
  have hrun : ((excerpt.scene excerptProbe).toOption.map fun root : Scene ℚ Int =>
      (decide root.IsRegular,
        (Film.ofScene root excerpt.frame 48000).toOption.map fun film =>
          (film.duration, film.audio.isSome, film.video.bind fun p => film.graph.value
            (Studio.timed excerptClock max excerpt.frame 48000).toReading p))) =
        some (true, some (2, true, some 5)) := by
    decide +kernel
  obtain ⟨root, hroot, hrun⟩ := exists_ok_of_map hrun
  obtain ⟨hregular, hrun⟩ := Prod.mk.inj hrun
  obtain ⟨film, hfilm, hrun⟩ := exists_ok_of_map hrun
  obtain ⟨hduration, hrun⟩ := Prod.mk.inj hrun
  obtain ⟨haudio, hvideo⟩ := Prod.mk.inj hrun
  exact ⟨root, film, hroot, of_decide_eq_true hregular, hfilm, hduration, haudio, hvideo⟩

/-- If a picture ended with the last of its layers, that of a parallel might last longer than the
parallel. -/
theorem picture_outlasts : excerptClock.Tells excerptProbe ∧
    ∃ (root : Scene ℚ Int) (film : Film ℚ Int),
      excerpt.scene excerptProbe = .ok root ∧ root.IsRegular ∧
      Film.ofScene root excerpt.frame 48000 = .ok film ∧ film.duration = 2 ∧
        ∃ p ∈ film.video, film.graph.value
          (Studio.timed excerptClock max excerpt.frame 48000).toReading p = some 5 := by
  obtain ⟨root, film, hroot, hregular, hfilm, hduration, _, hvideo⟩ := exists_excerpt
  obtain ⟨p, hp, hvalue⟩ := Option.bind_eq_some_iff.1 hvideo
  exact ⟨tells_excerpt, root, film, hroot, hregular, hfilm, hduration, p, hp, hvalue⟩

/-- The sound and the picture of the excerpt last two seconds. -/
theorem streams_measured_excerpt : ∃ (root : Scene ℚ Int) (film : Film ℚ Int),
    excerpt.scene excerptProbe = .ok root ∧ root.IsRegular ∧
      Film.ofScene root excerpt.frame 48000 = .ok film ∧
        ∃ p ∈ film.audio, ∃ q ∈ film.video,
          let r : Reading Lasting ℚ Int :=
            (Studio.timed excerptClock .withBase excerpt.frame 48000).toReading
          film.graph.value r p = some 2 ∧ film.graph.value r q = some 2 := by
  obtain ⟨root, film, hroot, hregular, hfilm, hduration, haudio, hvideo⟩ := exists_excerpt
  obtain ⟨⟨-, hfilms⟩, -⟩ := streams_measured (by decide) hroot tells_excerpt hregular 48000
  obtain ⟨p, hp⟩ := Option.isSome_iff_exists.1 haudio
  obtain ⟨q, hq, -⟩ := Option.bind_eq_some_iff.1 hvideo
  have hlasting := hfilms film hfilm
  rw [hduration] at hlasting
  exact ⟨root, film, hroot, hregular, hfilm, p, hp, q, hq,
    hlasting p (Or.inl hp), hlasting q (Or.inr hq)⟩

end Document
end Montage
