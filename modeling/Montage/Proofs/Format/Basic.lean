import Montage.Proofs.Compile.Standard
import Montage.Proofs.Scene.Memory

/-!
# Formats of streams

The reading of streams as their formats: how large a picture is, and which channels and which sample
rate a sound has.

**Input.** The scene of a document, which knows the formats of its files.

**Algorithm.** A filter sets a format, or keeps that of what it reads. What is joined has the format
that all of its parts have.

**Results.**
* `Scene.formats`: the reading of streams as their formats.
* `Filter.Accepts`: what the filters that put streams together need.
* `Studio.upholds_formats`: with such filters, pictures have the size of their canvas, and sounds are
  stereo at the sample rate.
-/

namespace Montage

variable {τ π : Type}

/-- What is known about a sound. -/
structure Tone where
  system : Option AudioSystem
  rate : Option Nat
  deriving DecidableEq

namespace Tone

def unknown : Tone :=
  ⟨none, none⟩

/-- Two channels at a sample rate. -/
def stereo (sampleRate : Nat) : Tone :=
  ⟨some .stereo, some sampleRate⟩

end Tone

/-- The format of a stream, as far as it is known. -/
inductive Format (π : Type) where
  | picture (size : Option (π × π))
  | sound (tone : Tone)

namespace Format

def size? : Format π → Option (π × π)
  | picture size => size
  | sound _ => none

def tone : Format π → Tone
  | picture _ => .unknown
  | sound tone => tone

/-- What all have in common. -/
def shared {β : Type} [DecidableEq β] (unknown : β) : List β → β
  | [] => unknown
  | b :: rest => if ∀ c ∈ rest, c = b then b else unknown

theorem shared_eq {β : Type} [DecidableEq β] {unknown b : β} {bs : List β} (hne : bs ≠ [])
    (h : ∀ c ∈ bs, c = b) : shared unknown bs = b := by
  cases bs with
  | nil => exact absurd rfl hne
  | cons c rest =>
      obtain rfl := h c List.mem_cons_self
      exact if_pos fun d hd => h d (List.mem_cons_of_mem _ hd)

end Format

namespace Filter

variable [PixelCount π]

/-- The size of the picture that a filter gives. An overlay has the size of its base. -/
def size? : Filter τ π → List (Format π) → Option (π × π)
  | .color width height _ _, _ => some (width, height)
  | .scale (some width) (some height), _ =>
      if 0 < width ∧ 0 < height then some (width, height) else none
  | .scale _ _, _ => none
  | .concat _ _, as => Format.shared none (as.map Format.size?)
  | _, as => as.head?.bind Format.size?

omit [PixelCount π] in
/-- The format of the sound that a filter gives. -/
def tone : Filter τ π → List (Format π) → Tone
  | .silence sampleRate, _ => .stereo sampleRate
  | .normalize sampleRate, _ => .stereo sampleRate
  | .downmix, as => ⟨some .monaural, (Format.shared .unknown (as.map Format.tone)).rate⟩
  | .mergeChannels, as =>
      let tone := Format.shared .unknown (as.map Format.tone)
      if as.length = 2 ∧ tone.system = some .monaural then ⟨some .stereo, tone.rate⟩ else .unknown
  | .pair, as => (as.getLast?.map Format.tone).getD .unknown
  | _, as => Format.shared .unknown (as.map Format.tone)

/-- The format of what a filter gives at an output of a kind. -/
def format : Filter τ π → List (Format π) → StreamKind → Format π
  | .split _, [a], _ => a
  | f, as, .video => .picture (f.size? as)
  | f, as, .audio => .sound (f.tone as)

omit [PixelCount π] in
/-- What a filter that puts streams together needs: as many as it says, pictures where it joins
pictures, and sounds of one format. If sizes are looked at, pictures that are joined have one size. -/
def Accepts (sampleRate : Nat) (sized : Prop) : Filter τ π → List (Format π) → Prop
  | .overlay .., as => as.length = 2
  | .concat n .video, as =>
      as.length = n ∧ (∀ a ∈ as, ∃ size, a = .picture size) ∧
        (sized → ∃ size, ∀ a ∈ as, a = .picture (some size))
  | .concat n .audio, as => as.length = n ∧ ∀ a ∈ as, a = .sound (.stereo sampleRate)
  | .pair, as =>
      ∃ size, as = [.picture size, .sound (.stereo sampleRate)] ∧ (sized → size.isSome = true)
  | .mix n, as => as.length = n ∧ ∀ a ∈ as, a = .sound (.stereo sampleRate)
  | .mergeChannels, as =>
      as.length = 2 ∧ ∀ a ∈ as, ∃ rate, a = .sound ⟨some .monaural, rate⟩
  | _, _ => True

end Filter

/-- The size of the picture of media. -/
def SourceFacts.size? (facts : SourceFacts τ π) : Option (π × π) :=
  match facts.width, facts.height with
  | some width, some height => some (width, height)
  | _, _ => none

/-- The reading of streams as their formats: files have those that are known to the leaves. -/
def Scene.formats [PixelCount π] (root : Scene τ π) : Reading (Format π) τ π where
  input i kind :=
    match kind with
    | .video => .picture (root.facts i.path).size?
    | .audio => .sound ⟨(root.facts i.path).audioSystem, none⟩
  filter := Filter.format

namespace Studio

variable [Timescale τ]

/-- A studio that also tells whether the filters before a stream pass a check. -/
def checked {α : Type} (s : Studio α τ π) (fits : Filter τ π → List α → Prop)
    (hsplit : ∀ kind a, fits (.split kind) [a]) : Studio (α × Prop) τ π where
  toReading := s.toReading.checked fits
  frame := s.frame
  sampleRate := s.sampleRate
  hears := s.hears
  filter_split := by
    rintro kind k ⟨a, p⟩
    refine Prod.ext (s.filter_split kind k a) (propext ⟨fun h => ?_, fun h => ⟨?_, hsplit kind a⟩⟩)
    · exact h.1 (a, p) List.mem_cons_self
    · rintro b hb
      rw [List.mem_singleton.1 hb]
      exact h
  input_same options p q kind h := by
    simp only [Reading.checked, s.input_same options p q kind h]
  hears_same := s.hears_same

variable [PixelCount π]

/-- The studio whose streams carry their formats. A file is heard if leaves of its kind are, and it
has a sound. -/
def formats (root : Scene τ π) (frame : Frame τ) (sampleRate : Nat) : Studio (Format π) τ π where
  toReading := root.formats
  frame := frame
  sampleRate := sampleRate
  hears key heard := heard = (key.kind.hasAudio && (root.facts key.path).hasAudio)
  filter_split _ _ _ := rfl
  input_same options p q kind h := by
    cases kind <;> simp only [Scene.formats, root.facts_same h]
  hears_same a b heard h ha := by
    obtain ⟨hpath, hkind⟩ := Bool.and_eq_true_iff.1 h
    have hk : a.kind = b.kind := by simpa using hkind
    rw [ha, hk, root.facts_same hpath]

/-- The studio whose streams carry their formats, and whether all filters before them were given what
they need. -/
def accepted (root : Scene τ π) (frame : Frame τ) (sampleRate : Nat) (sized : Prop) :
    Studio (Format π × Prop) τ π :=
  (formats root frame sampleRate).checked (Filter.Accepts sampleRate sized) fun _ _ => trivial

end Studio

/-- Pictures are as large as their canvas if sizes are looked at; sounds are stereo. All of them come
from filters that were given what they need. -/
def Standard.formats (sampleRate : Nat) (sized : Prop) : Standard (Format π × Prop) π where
  picture key v := ∃ size, v = (.picture size, True) ∧ (sized → size = some (key.width, key.height))
  sound a := a = (.sound (.stereo sampleRate), True)

theorem Standard.checks_formats (sampleRate : Nat) (sized : Prop) :
    (Standard.formats sampleRate sized : Standard (Format π × Prop) π).Checks where
  picture := by
    rintro key _ ⟨size, rfl, _⟩
    trivial
  sound := by
    rintro _ rfl
    trivial

/-- Sounds of the standard have their format in common. -/
theorem Standard.sounds_formats {sampleRate : Nat} {sized : Prop} {as : List (Format π × Prop)}
    (hne : as ≠ []) (h : ∀ a ∈ as, (Standard.formats sampleRate sized).sound a) :
    (∀ a ∈ as, a.2) ∧ (∀ a ∈ as.map Prod.fst, a = .sound (.stereo sampleRate)) ∧
      Format.shared .unknown ((as.map Prod.fst).map Format.tone) = .stereo sampleRate := by
  have hsound : ∀ a ∈ as.map Prod.fst, a = (.sound (.stereo sampleRate) : Format π) := by
    intro a ha
    obtain ⟨b, hb, rfl⟩ := List.mem_map.1 ha
    rw [h b hb]
  refine ⟨fun a ha => (checks_formats sampleRate sized).sound a (h a ha), hsound, ?_⟩
  refine Format.shared_eq (by simpa using hne) fun c hc => ?_
  obtain ⟨a, ha, rfl⟩ := List.mem_map.1 hc
  rw [hsound a ha]
  rfl

namespace Studio

variable [Timescale τ] [PixelCount π] {root : Scene τ π} {frame : Frame τ} {sampleRate : Nat}
  {sized : Prop}

/-- What a filter gives that was given what it needs. -/
theorem accepted_eq {f : Filter τ π} {as : List (Format π × Prop)} {b : Format π}
    {kind : StreamKind} (hall : ∀ a ∈ as, a.2) (hf : f.format (as.map Prod.fst) kind = b)
    (hfits : f.Accepts sampleRate sized (as.map Prod.fst)) :
    (accepted root frame sampleRate sized).filter f as kind = (b, True) :=
  Prod.ext hf (eq_true ⟨hall, hfits⟩)

theorem accepted_apply {f : Filter τ π} {a b : Format π} {kind : StreamKind}
    (hf : f.format [a] kind = b) (hfits : f.Accepts sampleRate sized [a]) :
    (accepted root frame sampleRate sized).apply f kind (a, True) = (b, True) :=
  accepted_eq (by simp) hf hfits

theorem upholds_formats :
    (accepted root frame sampleRate sized).Upholds (Standard.formats sampleRate sized) where
  canvas key := by
    have hcolor : (accepted root frame sampleRate sized).filter
        (.color key.width key.height key.color frame.fps) [] .video =
          (.picture (some (key.width, key.height)), True) :=
      accepted_eq (by simp) rfl trivial
    refine ⟨some (key.width, key.height), ?_, fun _ => rfl⟩
    calc (accepted root frame sampleRate sized).canvas key
        = (accepted root frame sampleRate sized).apply .rgba .video
            (.picture (some (key.width, key.height)), True) := congrArg _ hcolor
      _ = (.picture (some (key.width, key.height)), True) := accepted_apply rfl trivial
  retimedPicture := by
    rintro f key _ hf ⟨size, rfl, hsize⟩
    refine ⟨size, accepted_apply ?_ ?_, hsize⟩
    · cases hf <;> rfl
    · cases hf <;> trivial
  retimedSound := by
    rintro f _ hf rfl
    refine accepted_apply ?_ ?_
    · cases hf <;> rfl
    · cases hf <;> trivial
  overlay := by
    rintro key key' _ _ x y ending ⟨size, rfl, hsize⟩ ⟨size', rfl, _⟩
    exact ⟨size, accepted_eq (by simp) rfl rfl, hsize⟩
  concatPictures := by
    intro key vs hne hvs
    refine ⟨_, accepted_eq (fun v hv => ?_) rfl ⟨by simp, ?_, ?_⟩, ?_⟩
    · exact (Standard.checks_formats sampleRate sized).picture key v (hvs v hv)
    · intro a ha
      obtain ⟨v, hv, rfl⟩ := List.mem_map.1 ha
      obtain ⟨size, rfl, _⟩ := hvs v hv
      exact ⟨size, rfl⟩
    · intro hs
      refine ⟨(key.width, key.height), fun a ha => ?_⟩
      obtain ⟨v, hv, rfl⟩ := List.mem_map.1 ha
      obtain ⟨size, rfl, hsize⟩ := hvs v hv
      rw [hsize hs]
    · intro hs
      refine Format.shared_eq (by simpa using hne) fun c hc => ?_
      simp only [List.map_map, List.mem_map, Function.comp_apply] at hc
      obtain ⟨v, hv, rfl⟩ := hc
      obtain ⟨size, rfl, hsize⟩ := hvs v hv
      exact hsize hs
  concatSounds := by
    intro as hne has
    obtain ⟨hall, hsound, htone⟩ := Standard.sounds_formats hne has
    exact accepted_eq hall (congrArg Format.sound htone) ⟨by simp, hsound⟩
  mix := by
    intro as hne has
    obtain ⟨hall, hsound, htone⟩ := Standard.sounds_formats hne has
    exact accepted_eq hall (congrArg Format.sound htone) ⟨by simp, hsound⟩
  pair := by
    rintro key _ _ ⟨size, rfl, hsize⟩ rfl
    have hfits : (Filter.pair : Filter τ π).Accepts sampleRate sized
        [.picture size, .sound (.stereo sampleRate)] :=
      ⟨size, rfl, fun hs => by rw [hsize hs]; rfl⟩
    exact ⟨⟨size, accepted_eq (by simp) rfl hfits, hsize⟩, accepted_eq (by simp) rfl hfits⟩

end Studio
end Montage
