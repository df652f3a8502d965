import Montage.Proofs.Format.Leaves

/-!
# Formats in films

**Input.** The scene of a document, and the film that it is compiled to.

**Algorithm.** All filters of a film but the drains were given what they need, and what each node
gives keeps its format until the film is finished.

**Results.**
* `Film.pictures_sized`: pictures that are joined have one size, the picture of a node has its padded
  size, and that of a film the size of the frame.
* `Film.streams_fed`: filters read as many streams as they say, and sounds that are joined or mixed
  are stereo at the sample rate.
-/

namespace Montage

variable {τ π : Type} [Timescale τ] [PixelCount π]

section

open Compile

omit [Timescale τ] [PixelCount π] in
theorem Length.isConcrete_of_concrete {tag : Tag} {property : Dimension} {l : Length π}
    {w w' : Workshop τ π} {n : π} (h : concrete tag property l w = .ok (n, w')) :
    l.IsConcrete := by
  cases l with
  | pixel n => exact ⟨n, rfl⟩
  | _ => cases h

omit [Timescale τ] in
/-- A canvas that was made has sides in pixels. -/
theorem Leaf.isConcrete_of_canvas {tag : Tag} {style : Style τ π} {w w' : Workshop τ π} {p : Pad}
    (h : Leaf.canvas tag style w = .ok (p, w')) :
    style.paddedWidth.IsConcrete ∧ style.paddedHeight.IsConcrete := by
  obtain ⟨width, w₁, hwidth, h⟩ := bind_eq_ok.1 (counted_bind_eq_ok.1 h).2
  obtain ⟨height, w₂, hheight, _⟩ := bind_eq_ok.1 h
  exact ⟨Length.isConcrete_of_concrete hwidth, Length.isConcrete_of_concrete hheight⟩

/-- A text that was compiled has a canvas in pixels. -/
theorem Leaf.isConcrete_of_text {tag : Tag} {locator : Locator} {style : Style τ π}
    {w w' : Workshop τ π} {st : Streams}
    (h : Leaf.compile tag .text locator style w = .ok (st, w')) :
    style.paddedWidth.IsConcrete ∧ style.paddedHeight.IsConcrete := by
  obtain ⟨_, _, hnatural, _⟩ := bind_eq_ok.1 h
  obtain ⟨_, _, hdrawing, _⟩ := bind_eq_ok.1 hnatural
  obtain ⟨_, _, hcanvas, _⟩ := bind_eq_ok.1 hdrawing
  exact isConcrete_of_canvas hcanvas

end

section

variable {cache : ProbeCache τ}

/-- The padded box of a node that was compiled and can be seen is in pixels. -/
theorem Call.Made.padded {call : Call τ π} (hmade : call.Made) (hbox : call.node.IsBoxed cache)
    (hshown : call.node.hasVideo = true) :
    call.node.style.paddedWidth = .pixel call.node.style.canvasKey.width ∧
      call.node.style.paddedHeight = .pixel call.node.style.canvasKey.height := by
  have hpixel : ∀ style : Style τ π,
      style.paddedWidth.IsConcrete ∧ style.paddedHeight.IsConcrete →
        style.paddedWidth = .pixel style.canvasKey.width ∧
          style.paddedHeight = .pixel style.canvasKey.height := by
    rintro style ⟨⟨w, hw⟩, h, hh⟩
    simp only [Style.canvasKey, hw, hh, Length.pixelsOr_pixel, and_self]
  have hsized : ∀ style : Style τ π, style.IsSized → style.padding.IsConcrete →
      style.paddedWidth.IsConcrete ∧ style.paddedHeight.IsConcrete := fun style hs hp =>
    ⟨⟨_, hs.width.add hp.left hp.right⟩, ⟨_, hs.height.add hp.top hp.bottom⟩⟩
  obtain ⟨node, before, streams, after⟩ := call
  refine hpixel _ ?_
  cases hbox with
  | @leaf tag kind locator style hp _ _ hs =>
      by_cases ht : kind = .text
      · subst ht
        exact Leaf.isConcrete_of_text hmade
      · exact hsized style (hs hshown ht) hp
  | @container tag style items hp hs => exact hsized style (hs hshown) hp

end

namespace Filter

/-- Only two filters are written as `concat`. -/
theorem eq_of_name_concat {f : Filter τ π} (h : f.invocation.name = "concat") :
    (∃ n, f = .concat n .video) ∨ (∃ n, f = .concat n .audio) ∨ f = .pair := by
  cases f with
  | concat n kind => cases kind <;> simp
  | pair => simp
  | trim kind | loop kind | split kind | sink kind => cases kind <;> simp [invocation] at h
  | _ => simp [invocation] at h

theorem eq_of_name_amix {f : Filter τ π} (h : f.invocation.name = "amix") : ∃ n, f = .mix n := by
  cases f with
  | mix n => exact ⟨n, rfl⟩
  | trim kind | loop kind | split kind | sink kind | concat _ kind =>
      cases kind <;> simp [invocation] at h
  | _ => simp [invocation] at h

theorem eq_of_name_amerge {f : Filter τ π} (h : f.invocation.name = "amerge") :
    f = .mergeChannels := by
  cases f with
  | mergeChannels => rfl
  | trim kind | loop kind | split kind | sink kind | concat _ kind =>
      cases kind <;> simp [invocation] at h
  | _ => simp [invocation] at h

theorem eq_of_name_overlay {f : Filter τ π} (h : f.invocation.name = "overlay") :
    ∃ x y ending, f = .overlay x y ending := by
  cases f with
  | overlay x y ending => exact ⟨x, y, ending, rfl⟩
  | trim kind | loop kind | split kind | sink kind | concat _ kind =>
      cases kind <;> simp [invocation] at h
  | _ => simp [invocation] at h

end Filter

/-- The filters of a graph that put streams together read as many as they say. Sounds that they join
or mix are stereo at the sample rate, and channels are merged of two sounds with one channel each. -/
structure Graph.Feeds (g : Graph (Filter τ π)) (r : Reading (Format π) τ π) (sampleRate : Nat)
    (s : Stage (Filter τ π)) : Prop where
  concat : s.filter.invocation.name = "concat" →
    (∃ n v a : Nat, s.filter.invocation.get? "n" = some n.repr ∧
      s.filter.invocation.get? "v" = some v.repr ∧ s.filter.invocation.get? "a" = some a.repr ∧
        n * (v + a) = s.inputs.length) ∧
    ∀ p ∈ s.inputs, (∃ size, g.value r p = some (.picture size)) ∨
      g.value r p = some (.sound (.stereo sampleRate))
  mix : s.filter.invocation.name = "amix" →
    s.filter.invocation.get? "inputs" = some s.inputs.length.repr ∧
      ∀ p ∈ s.inputs, g.value r p = some (.sound (.stereo sampleRate))
  merge : s.filter.invocation.name = "amerge" →
    s.filter.invocation.get? "inputs" = some s.inputs.length.repr ∧ s.inputs.length = 2 ∧
      ∀ p ∈ s.inputs, ∃ rate, g.value r p = some (.sound ⟨some .monaural, rate⟩)
  overlay : s.filter.invocation.name = "overlay" → s.inputs.length = 2

/-- The pictures that a filter of a graph joins end to end have one known size. -/
def Graph.JoinsOneSize (g : Graph (Filter τ π)) (r : Reading (Format π) τ π)
    (s : Stage (Filter τ π)) : Prop :=
  s.filter.invocation.name = "concat" →
    (∀ p ∈ s.inputs, (g.value r p).isSome = true) ∧
      ∃ size, ∀ p ∈ s.inputs, ∀ found, g.value r p = some (.picture found) → found = some size

section

variable {g : Graph (Filter τ π)} {r : Reading (Format π) τ π} {sampleRate : Nat} {sized : Prop}
  {s : Stage (Filter τ π)} {as : List (Format π)}

/-- A filter that was given what it needs is fed. -/
theorem Filter.Accepts.feeds (h : s.filter.Accepts sampleRate sized as)
    (hin : s.inputs.mapM (g.value r) = some as) : g.Feeds r sampleRate s := by
  have hlength : as.length = s.inputs.length := (mapM_eq_some_iff.1 hin).length_eq.symm
  have hvalue : ∀ P : Format π → Prop, (∀ a ∈ as, P a) →
      ∀ p ∈ s.inputs, ∃ a, P a ∧ g.value r p = some a := by
    intro P hP p hp
    obtain ⟨a, ha, hv⟩ := exists_of_forall₂ (mapM_eq_some_iff.1 hin) hp
    exact ⟨a, hP a ha, hv⟩
  obtain ⟨inputs, filter, outputs⟩ := s
  constructor
  · intro hname
    rcases Filter.eq_of_name_concat hname with ⟨n, rfl⟩ | ⟨n, rfl⟩ | rfl
    · obtain ⟨hn, hpictures, _⟩ := h
      refine ⟨⟨n, 1, 0, rfl, rfl, rfl, by omega⟩, fun p hp => ?_⟩
      obtain ⟨_, ⟨size, rfl⟩, hv⟩ := hvalue _ hpictures p hp
      exact Or.inl ⟨size, hv⟩
    · obtain ⟨hn, hsounds⟩ := h
      refine ⟨⟨n, 0, 1, rfl, rfl, rfl, by omega⟩, fun p hp => ?_⟩
      obtain ⟨_, rfl, hv⟩ := hvalue _ hsounds p hp
      exact Or.inr hv
    · obtain ⟨size, rfl, _⟩ := h
      refine ⟨⟨1, 1, 1, rfl, rfl, rfl, hlength⟩, fun p hp => ?_⟩
      obtain ⟨a, ha, hv⟩ := hvalue _ (fun a ha => ha) p hp
      rw [List.mem_pair] at ha
      rcases ha with rfl | rfl
      · exact Or.inl ⟨size, hv⟩
      · exact Or.inr hv
  · intro hname
    obtain ⟨n, rfl⟩ := Filter.eq_of_name_amix hname
    obtain ⟨hn, hsounds⟩ := h
    refine ⟨congrArg (fun n => some (Nat.repr n)) (hn.symm.trans hlength), fun p hp => ?_⟩
    obtain ⟨_, rfl, hv⟩ := hvalue _ hsounds p hp
    exact hv
  · intro hname
    obtain rfl := Filter.eq_of_name_amerge hname
    obtain ⟨hn, hsounds⟩ := h
    have htwo : inputs.length = 2 := hlength.symm.trans hn
    refine ⟨congrArg (fun n => some (Nat.repr n)) htwo.symm, htwo, fun p hp => ?_⟩
    obtain ⟨_, ⟨rate, rfl⟩, hv⟩ := hvalue _ hsounds p hp
    exact ⟨rate, hv⟩
  · intro hname
    obtain ⟨x, y, ending, rfl⟩ := Filter.eq_of_name_overlay hname
    exact hlength.symm.trans h

/-- A filter that was given pictures of one size joins those. -/
theorem Filter.Accepts.joinsOneSize (h : s.filter.Accepts sampleRate True as)
    (hin : s.inputs.mapM (g.value r) = some as) : g.JoinsOneSize r s := by
  intro hname
  have hvalue : ∀ p ∈ s.inputs, ∃ a ∈ as, g.value r p = some a := fun p hp =>
    exists_of_forall₂ (mapM_eq_some_iff.1 hin) hp
  refine ⟨fun p hp => ?_, ?_⟩
  · obtain ⟨a, _, hv⟩ := hvalue p hp
    rw [hv]
    rfl
  -- It is enough that what is read has one size where it is a picture.
  suffices hsize : ∃ size, ∀ found, Format.picture found ∈ as → found = some size by
    obtain ⟨size, hsize⟩ := hsize
    refine ⟨size, fun p hp found hfound => hsize found ?_⟩
    obtain ⟨a, ha, hv⟩ := hvalue p hp
    rw [hfound] at hv
    cases hv
    exact ha
  obtain ⟨inputs, filter, outputs⟩ := s
  rcases Filter.eq_of_name_concat hname with ⟨n, rfl⟩ | ⟨n, rfl⟩ | rfl
  · obtain ⟨_, _, hone⟩ := h
    obtain ⟨size, hone⟩ := hone trivial
    refine ⟨size, fun found hfound => ?_⟩
    cases hone _ hfound
    rfl
  · obtain ⟨_, hsounds⟩ := h
    refine ⟨(0, 0), fun found hfound => ?_⟩
    cases hsounds _ hfound
  · obtain ⟨found, rfl, hknown⟩ := h
    obtain ⟨size, rfl⟩ := Option.isSome_iff_exists.1 (hknown trivial)
    refine ⟨size, fun found hfound => ?_⟩
    simpa using hfound

end

namespace Film

variable {d : Document τ} {probe : Probe τ} {root : Scene τ π} {frame : Frame τ} {sampleRate : Nat}
  {film : Film τ π}

/-- The filters of a film but the drains were given what they need. -/
theorem accepts [LawfulPixelCount π] (sized : Prop) (hd : d.scene probe = .ok root)
    (hpos : sized → root.HasPositiveBoxes) (h : ofScene root frame sampleRate = .ok film) :
    ∀ stage ∈ film.graph.stages, (∃ kind p, stage = ⟨[p], .sink kind, []⟩) ∨
      ∃ as, stage.inputs.mapM (film.graph.value root.formats) = some as ∧
        stage.filter.Accepts sampleRate sized as := by
  obtain ⟨cache, hbox⟩ := Document.exists_allBoxed hd
  exact passes (s := Studio.accepted root frame sampleRate sized) rfl Studio.upholds_formats
    (Standard.checks_formats sampleRate sized) h (Scene.heard_formats hbox)
    (Scene.leavesMeet_formats hbox hpos)

/-- The drains put nothing together. -/
theorem feeds_drain (g : Graph (Filter τ π)) (r : Reading (Format π) τ π) (sampleRate : Nat)
    (kind : StreamKind) (p : Pad) :
    g.Feeds r sampleRate ⟨[p], .sink kind, []⟩ ∧ g.JoinsOneSize r ⟨[p], .sink kind, []⟩ := by
  have hname : ∀ name, name ≠ "nullsink" → name ≠ "anullsink" →
      (Filter.sink kind : Filter τ π).invocation.name ≠ name := by
    rintro _ hv ha rfl
    cases kind with
    | video => exact hv rfl
    | audio => exact ha rfl
  refine ⟨⟨?_, ?_, ?_, ?_⟩, ?_⟩ <;>
    exact fun h => absurd h (hname _ (by decide) (by decide))

/-- Pictures that are joined have one size. The picture of a node has its padded size, and that of the
film the size of the frame. -/
theorem pictures_sized [LawfulPixelCount π] (hd : d.scene probe = .ok root)
    (hpos : root.HasPositiveBoxes) (h : ofScene root frame sampleRate = .ok film) :
    (∀ stage ∈ film.graph.stages, film.graph.JoinsOneSize root.formats stage) ∧
    (∀ call : Call τ π, Visits root (.start frame sampleRate) call → ∀ p ∈ call.streams.video,
      ∃ width height, call.node.style.paddedWidth = .pixel width ∧
        call.node.style.paddedHeight = .pixel height ∧
          film.graph.value root.formats p = some (.picture (some (width, height)))) ∧
    ∀ p ∈ film.video, film.graph.value root.formats p =
      some (.picture (some (PixelCount.ofInt frame.resolution.width,
        PixelCount.ofInt frame.resolution.height))) := by
  obtain ⟨cache, hbox⟩ := Document.exists_allBoxed hd
  let s : Studio (Format π × Prop) τ π := .accepted root frame sampleRate True
  have hheard : root.Heard s := Scene.heard_formats hbox
  have hleaves : root.LeavesMeet s (.formats sampleRate True) :=
    Scene.leavesMeet_formats hbox fun _ => hpos
  refine ⟨fun stage hstage => ?_, fun call hcall p hp => ?_, fun p hp => ?_⟩
  · rcases accepts True hd (fun _ => hpos) h stage hstage with
      ⟨kind, p, rfl⟩ | ⟨as, hin, hfits⟩
    · exact (feeds_drain _ _ sampleRate kind p).2
    · exact hfits.joinsOneSize hin
  · obtain ⟨c, hmeets, hcarry⟩ := hcall.meets (s := s) Studio.upholds_formats hheard hleaves
    obtain ⟨_, hv, hvalue⟩ := hcarry.value_video hp
    obtain ⟨size, rfl, hsize⟩ := hmeets.video _ hv
    have hshows : call.node.shows = true := by
      rw [← hmeets.video_isSome, Option.mem_def.1 hv]
      rfl
    obtain ⟨hwidth, hheight⟩ :=
      hcall.made.padded (hbox _ hcall.within) (Scene.hasVideo_of_shows hshows)
    refine ⟨_, _, hwidth, hheight, ?_⟩
    have hgrows := hcall.grows_film (s := s) h hheard
    rw [← hsize trivial]
    exact Graph.value_eq_of_checked (hgrows.value p _ hvalue)
  · obtain ⟨_, hvalue, size, rfl, hsize⟩ := (meets Studio.upholds_formats h hheard hleaves).1 p hp
    rw [hsize trivial] at hvalue
    exact Graph.value_eq_of_checked hvalue

/-- A clip with one channel and paddings, and then a silent talk with a song and a title. -/
def tour : Document ℚ where
  baseDir := ⟨""⟩
  frame := ⟨⟨640, 360⟩, 25⟩
  sheet := .empty
  root :=
    ⟨.seq, [],
      [⟨.vid, [("src", "clip.mp4"), ("style", "padding: 8px")], [], none⟩,
        ⟨.prl, [],
          [⟨.vid, [("src", "talk.mp4")], [], none⟩,
            ⟨.aud, [("src", "song.mp3")], [], none⟩,
            ⟨.txt, [], [], some "hello"⟩], none⟩], none⟩

def tourProbe : Probe ℚ := fun path =>
  if path.text = "clip.mp4" then .ok ⟨some 3, some ⟨320, 180⟩, some ⟨some "mono", some 1⟩⟩
  else if path.text = "talk.mp4" then .ok ⟨some 5, some ⟨160, 120⟩, none⟩
  else .ok ⟨some 8, none, some ⟨some "stereo", some 2⟩⟩

theorem exists_tour : ∃ (root : Scene ℚ Int) (film : Film ℚ Int), tour.scene tourProbe = .ok root ∧
    root.HasPositiveBoxes ∧ ofScene root tour.frame 48000 = .ok film ∧
      film.video.isSome = true ∧ film.audio.isSome = true := by
  have hrun : ((tour.scene tourProbe).toOption.map fun root : Scene ℚ Int =>
      (decide root.HasPositiveBoxes,
        (ofScene root tour.frame 48000).toOption.map fun film =>
          (film.video.isSome, film.audio.isSome))) = some (true, some (true, true)) := by
    decide +kernel
  obtain ⟨root, hroot, hrun⟩ := exists_ok_of_map hrun
  obtain ⟨hpos, hrun⟩ := Prod.mk.inj hrun
  obtain ⟨film, hfilm, hrun⟩ := exists_ok_of_map hrun
  obtain ⟨hvideo, haudio⟩ := Prod.mk.inj hrun
  exact ⟨root, film, hroot, of_decide_eq_true hpos, hfilm, hvideo, haudio⟩

theorem pictures_sized_tour : ∃ (root : Scene ℚ Int) (film : Film ℚ Int),
    tour.scene tourProbe = .ok root ∧ ofScene root tour.frame 48000 = .ok film ∧
      (∀ stage ∈ film.graph.stages, film.graph.JoinsOneSize root.formats stage) ∧
      ∃ p ∈ film.video, film.graph.value root.formats p = some (.picture (some (640, 360))) := by
  obtain ⟨root, film, hroot, hpos, hfilm, hvideo, _⟩ := exists_tour
  obtain ⟨hjoins, _, hscreen⟩ := pictures_sized hroot hpos hfilm
  obtain ⟨p, hp⟩ := Option.isSome_iff_exists.1 hvideo
  exact ⟨root, film, hroot, hfilm, hjoins, p, hp, hscreen p hp⟩

/-- Filters read as many streams as they say, sounds that are joined or mixed are stereo at the sample
rate, and so is the sound of the film. -/
theorem streams_fed [LawfulPixelCount π] (hd : d.scene probe = .ok root)
    (h : ofScene root frame sampleRate = .ok film) :
    (∀ stage ∈ film.graph.stages, film.graph.Feeds root.formats sampleRate stage) ∧
    ∀ p ∈ film.audio, film.graph.value root.formats p = some (.sound (.stereo sampleRate)) := by
  obtain ⟨cache, hbox⟩ := Document.exists_allBoxed hd
  let s : Studio (Format π × Prop) τ π := .accepted root frame sampleRate False
  have hheard : root.Heard s := Scene.heard_formats hbox
  have hleaves : root.LeavesMeet s (.formats sampleRate False) :=
    Scene.leavesMeet_formats hbox False.elim
  refine ⟨fun stage hstage => ?_, fun p hp => ?_⟩
  · rcases accepts False hd False.elim h stage hstage with
      ⟨kind, p, rfl⟩ | ⟨as, hin, hfits⟩
    · exact (feeds_drain _ _ sampleRate kind p).1
    · exact hfits.feeds hin
  · obtain ⟨_, hvalue, rfl⟩ := (meets Studio.upholds_formats h hheard hleaves).2 p hp
    exact Graph.value_eq_of_checked hvalue

theorem streams_fed_tour : ∃ (root : Scene ℚ Int) (film : Film ℚ Int),
    tour.scene tourProbe = .ok root ∧ ofScene root tour.frame 48000 = .ok film ∧
      (∀ stage ∈ film.graph.stages, film.graph.Feeds root.formats 48000 stage) ∧
      ∃ p ∈ film.audio, film.graph.value root.formats p = some (.sound (.stereo 48000)) := by
  obtain ⟨root, film, hroot, _, hfilm, _, haudio⟩ := exists_tour
  obtain ⟨hfeeds, hsound⟩ := streams_fed hroot hfilm
  obtain ⟨p, hp⟩ := Option.isSome_iff_exists.1 haudio
  exact ⟨root, film, hroot, hfilm, hfeeds, p, hp, hsound p hp⟩

end Film
end Montage
