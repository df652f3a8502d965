import Montage.Proofs.Format.Basic
import Montage.Proofs.Measure.Sums
import Montage.Proofs.Scene.Boxes

/-!
# Formats of leaves

The leaves of a built scene meet the standard of formats.

**Input.** A scene that was built from a document, with leaves of positive size if sizes are looked at.

**Algorithm.** A picture that does not need to be resized has its declared size already, and paddings
that are left out have no pixels. A sound is doubled where it has a single channel, and brought to the
common format in any case.

**Results.**
* `Scene.heard_formats`: the files of a built scene are heard as its leaves ask for.
* `Scene.leavesMeet_formats`: its leaves meet the standard.
-/

namespace Montage

variable {τ π : Type}

theorem Length.pixelsOr_eq {l : Length π} {n : π} (h : l = .pixel n) (m : π) : l.pixelsOr m = n := by
  rw [h, pixelsOr_pixel]

variable [PixelCount π]

/-- A padded side that is in pixels. -/
theorem Length.IsConcrete.add {l m n : Length π} (hl : l.IsConcrete) (hm : m.IsConcrete)
    (hn : n.IsConcrete) : l + m + n = .pixel ((l + m + n).pixelsOr 0) := by
  obtain ⟨a, rfl⟩ := hl
  obtain ⟨b, rfl⟩ := hm
  obtain ⟨c, rfl⟩ := hn
  rfl

/-- Paddings without pixels leave a side as it is. -/
theorem Length.add_none [LawfulPixelCount π] {l m n : Length π} {a : π} (hl : l = .pixel a)
    (hm : m.IsConcrete) (hm0 : m.pixelsOr 0 = 0) (hn : n.IsConcrete) (hn0 : n.pixelsOr 0 = 0) :
    (l + m + n).pixelsOr 0 = a := by
  obtain ⟨b, rfl⟩ := hm
  obtain ⟨c, rfl⟩ := hn
  rw [pixelsOr_pixel] at hm0 hn0
  rw [hl, hm0, hn0, pixel_add_pixel, pixel_add_pixel, pixelsOr_pixel, LawfulPixelCount.add_zero,
    LawfulPixelCount.add_zero]

theorem Style.canvasKey_of_isZero [LawfulPixelCount π] {style : Style τ π} {a b : π}
    (ha : style.width = .pixel a) (hb : style.height = .pixel b) (hp : style.padding.IsConcrete)
    (hz : style.padding.isZero = true) :
    style.canvasKey = ⟨a, b, Color.orTransparent style.backgroundColor⟩ := by
  simp only [Edges.isZero, Edges.toList, List.all_cons, List.all_nil, Bool.and_eq_true,
    decide_eq_true_eq, and_true] at hz
  obtain ⟨htop, hright, hbottom, hleft⟩ := hz
  rw [canvasKey, paddedWidth, paddedHeight, Length.add_none ha hp.left hleft hp.right hright,
    Length.add_none hb hp.top htop hp.bottom hbottom]

omit [PixelCount π] in
theorem SourceFacts.SameStreams.size?_eq {a b : SourceFacts τ π} (h : a.SameStreams b) :
    a.size? = b.size? := by
  rw [size?, size?, h.width, h.height]

/-- A side that does not differ from the natural side is that side. -/
theorem Style.eq_of_not_sideDiffers {declared : Length π} {natural : Option π} {n : π}
    (hd : declared = .pixel n) (h : sideDiffers declared natural = false) : natural = some n := by
  simpa [sideDiffers, hd] using h

variable [Timescale τ]

namespace Studio

variable {root : Scene τ π} {frame : Frame τ} {sampleRate : Nat} {sized : Prop}

/-- A picture of the declared size, with its paddings, stands on the padded canvas. -/
theorem picture_framed [LawfulPixelCount π] {style : Style τ π} {a b : π} {c : Color}
    (ha : style.width = .pixel a) (hb : style.height = .pixel b) (hp : style.padding.IsConcrete)
    {v : Format π × Prop} (h : (Standard.formats sampleRate sized).picture ⟨a, b, c⟩ v) :
    (Standard.formats sampleRate sized).picture style.canvasKey
      ((accepted root frame sampleRate sized).framed style v) := by
  obtain ⟨size, rfl, hsize⟩ := h
  have hrated : (accepted root frame sampleRate sized).apply (.frameRate frame.fps) .video
      ((accepted root frame sampleRate sized).apply .squarePixels .video (.picture size, True)) =
        (.picture size, True) := by
    rw [accepted_apply (f := .squarePixels) (b := .picture size) rfl trivial]
    exact accepted_apply rfl trivial
  unfold framed
  split
  · next hz =>
      refine ⟨size, hrated, fun hs => ?_⟩
      rw [Style.canvasKey_of_isZero ha hb hp hz]
      exact hsize hs
  · have hlayer : (Standard.formats sampleRate sized).picture ⟨a, b, c⟩ _ := ⟨size, hrated, hsize⟩
    exact upholds_formats.overlay _ _ .shortest (upholds_formats.canvas style.canvasKey) hlayer

/-- The picture of media, resized if it has to be, stands on the padded canvas. -/
theorem picture_formats [LawfulPixelCount π] {style : Style τ π} (hs : style.IsSized)
    (hp : style.padding.IsConcrete)
    (hpos : sized → 0 < style.width.pixelsOr 0 ∧ 0 < style.height.pixelsOr 0) :
    (Standard.formats sampleRate sized).picture style.canvasKey
      ((accepted root frame sampleRate sized).picture style (.picture style.source.size?, True)) := by
  obtain ⟨⟨a, ha⟩, ⟨b, hb⟩⟩ := hs
  rw [Length.pixelsOr_eq ha, Length.pixelsOr_eq hb] at hpos
  unfold picture
  split
  · refine picture_framed (c := .transparent) ha hb hp
      ⟨if 0 < a ∧ 0 < b then some (a, b) else none, ?_, fun hsized => if_pos (hpos hsized)⟩
    rw [ha, hb]
    exact accepted_apply rfl trivial
  · next hsame =>
      rw [Bool.not_eq_true, Style.needsResize, Bool.or_eq_false_iff] at hsame
      refine picture_framed (c := .transparent) ha hb hp ⟨some (a, b), ?_, fun _ => rfl⟩
      rw [SourceFacts.size?, Style.eq_of_not_sideDiffers ha hsame.1,
        Style.eq_of_not_sideDiffers hb hsame.2]

/-- One channel is doubled to two. -/
theorem doubled_formats (rate : Option Nat) :
    (accepted root frame sampleRate sized).doubled (.sound ⟨some .monaural, rate⟩, True) =
      (.sound ⟨some .stereo, rate⟩, True) :=
  accepted_eq (by simp) (by simp [Filter.format, Filter.tone, Format.shared, Format.tone])
    ⟨rfl, by simp⟩

/-- Any sound is brought to the common format. -/
theorem louder_formats (style : Style τ π) (tone : Tone) :
    (accepted root frame sampleRate sized).louder style (.sound tone, True) =
      (.sound (.stereo sampleRate), True) := by
  unfold louder
  split
  · next volume hv =>
      obtain ⟨percent, rfl⟩ : ∃ percent, volume = .volume percent := by
        unfold Filter.ofVolume? at hv
        split at hv
        · cases hv
        · exact ⟨_, (Option.some.inj hv).symm⟩
      rw [accepted_apply (f := .volume percent) (b := .sound tone) rfl trivial]
      exact accepted_apply rfl trivial
  · exact accepted_apply rfl trivial

/-- The sound of media comes to two channels at the sample rate. -/
theorem sounded_formats (style : Style τ π) :
    (accepted root frame sampleRate sized).sounded style
      (.sound ⟨style.source.audioSystem, none⟩, True) = (.sound (.stereo sampleRate), True) := by
  unfold sounded
  split
  · next hmono =>
      rw [hmono, doubled_formats]
      exact louder_formats style _
  · next hstereo _ =>
      rw [accepted_apply (f := .downmix) (b := .sound ⟨some .monaural, none⟩) rfl trivial,
        doubled_formats]
      exact louder_formats style _
  · exact louder_formats style _

/-- The sound of a leaf of media, which has one if its kind has. -/
theorem sound_formats {kind : MediaKind} {style : Style τ π} {heard : Bool} (ht : kind ≠ .text)
    (ha : kind = .audio → style.source.hasAudio = true)
    (hh : heard = (kind.hasAudio && style.source.hasAudio)) :
    (accepted root frame sampleRate sized).sound kind style
        (if kind.hasAudio && style.source.hasAudio && heard then
          some (.sound ⟨style.source.audioSystem, none⟩, True) else none) =
      if kind.hasAudio then some (.sound (.stereo sampleRate), True) else none := by
  rw [hh, Bool.and_self]
  have hsilence : (accepted root frame sampleRate sized).filter (.silence sampleRate) [] .audio =
      (.sound (.stereo sampleRate), True) :=
    accepted_eq (by simp) rfl trivial
  have hsounded : (accepted root frame sampleRate sized).sounded style _ = _ :=
    sounded_formats style
  cases kind with
  | text => exact absurd rfl ht
  | image => rfl
  | audio =>
      rw [ha rfl]
      exact congrArg some hsounded
  | video =>
      cases style.source.hasAudio with
      | true => exact congrArg some hsounded
      | false => exact congrArg some hsilence

end Studio

namespace Scene

variable {root : Scene τ π} {frame : Frame τ} {sampleRate : Nat} {sized : Prop}
  {cache : ProbeCache τ}

omit [Timescale τ] in
/-- What a built scene knows of a file is what each of its leaves knows. -/
theorem sameStreams_of_allBoxed (hbox : root.AllBoxed cache) {tag : Tag} {kind : MediaKind}
    {path : Path} {style : Style τ π} (hw : (leaf tag kind (.path path) style).Within root) :
    (root.facts path).SameStreams style.source :=
  sameStreams_facts (fun _ _ _ _ h => (isTold_of_isBoxed hbox h).2) hw

/-- The files of a built scene are heard as its leaves ask for. -/
theorem heard_formats (hbox : root.AllBoxed cache) :
    root.Heard (Studio.accepted root frame sampleRate sized) := by
  rintro tag kind _ style hw path rfl
  change _ = (kind.hasAudio && (root.facts path).hasAudio)
  rw [(sameStreams_of_allBoxed hbox hw).hasAudio]

/-- A leaf of media that can be seen has a box with positive sides. -/
def HasPositiveBox : Scene τ π → Prop
  | leaf _ kind _ style =>
      kind.hasVideo = true → kind ≠ .text →
        0 < style.width.pixelsOr 0 ∧ 0 < style.height.pixelsOr 0
  | container .. => True

instance decidableHasPositiveBox : DecidablePred (HasPositiveBox (τ := τ) (π := π))
  | leaf _ kind _ style =>
      inferInstanceAs (Decidable (kind.hasVideo = true → kind ≠ .text →
        0 < style.width.pixelsOr 0 ∧ 0 < style.height.pixelsOr 0))
  | container .. => inferInstanceAs (Decidable True)

/-- All leaves of media that can be seen have boxes with positive sides. -/
def HasPositiveBoxes (scene : Scene τ π) : Prop :=
  ∀ node : Scene τ π, node.Within scene → node.HasPositiveBox

instance decidableHasPositiveBoxes (scene : Scene τ π) : Decidable scene.HasPositiveBoxes :=
  inferInstanceAs (Decidable (∀ node : Scene τ π, node.Within scene → node.HasPositiveBox))

/-- The leaves of a built scene meet the standard of formats. -/
theorem leavesMeet_formats [LawfulPixelCount π] (hbox : root.AllBoxed cache)
    (hpos : sized → root.HasPositiveBoxes) :
    root.LeavesMeet (Studio.accepted root frame sampleRate sized)
      (Standard.formats sampleRate sized) := by
  have hu : (Studio.accepted root frame sampleRate sized).Upholds _ := Studio.upholds_formats
  rintro tag kind locator style hw c (_ | ⟨ht, hh⟩)
  · -- Text is drawn on the padded canvas.
    obtain ⟨size, hboard, hsize⟩ := hu.canvas style.canvasKey
    refine ⟨rfl, rfl, ?_, by simp⟩
    rintro _ ⟨⟩
    refine ⟨size, ?_, hsize⟩
    calc (Studio.accepted root frame sampleRate sized).drawing style _
        = (Studio.accepted root frame sampleRate sized).apply (.drawText _ _ _ style.face) .video
            (.picture size, True) := congrArg _ hboard
      _ = (.picture size, True) := Studio.accepted_apply rfl trivial
  · next path heard =>
    have hsame := sameStreams_of_allBoxed hbox hw
    have htold := (isTold_of_isBoxed hbox hw).2
    have hheard : heard = (kind.hasAudio && style.source.hasAudio) :=
      hh.trans (by rw [hsame.hasAudio])
    have hpicture : (Studio.accepted root frame sampleRate sized).stream ⟨path, kind⟩ .video =
        (.picture style.source.size?, True) :=
      Prod.ext (congrArg Format.picture hsame.size?_eq) rfl
    have hsound : ((Studio.accepted root frame sampleRate sized).media kind path style heard).audio =
        if kind.hasAudio then some (.sound (.stereo sampleRate), True) else none := by
      have hstream : (Studio.accepted root frame sampleRate sized).stream ⟨path, kind⟩ .audio =
          (.sound ⟨style.source.audioSystem, none⟩, True) :=
        Prod.ext (congrArg (fun a => Format.sound ⟨a, none⟩) hsame.audioSystem) rfl
      unfold Studio.media
      rw [hstream]
      exact Studio.sound_formats ht htold.needs.2 hheard
    have hbuilt := hbox _ hw
    cases hbuilt with
    | leaf hp _ _ hsize =>
        refine ⟨?_, ?_, ?_, ?_⟩
        · unfold Studio.media
          cases kind.hasVideo <;> rfl
        · rw [hsound]
          cases kind.hasAudio <;> rfl
        · intro v hv
          obtain ⟨hk, ⟨⟩⟩ := Option.ite_none_right_eq_some.1 (Option.mem_def.1 hv)
          rw [hpicture]
          exact Studio.picture_formats (hsize hk ht) hp fun hs => hpos hs _ hw hk ht
        · intro a ha
          rw [hsound] at ha
          obtain ⟨_, ⟨⟩⟩ := Option.ite_none_right_eq_some.1 (Option.mem_def.1 ha)
          rfl

end Scene
end Montage
