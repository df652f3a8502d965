import Montage.Proofs.Time.Lasting

/-!
# How long leaves last

A leaf of a known length lasts exactly that long, an open one has no end.

**Input.** What a leaf carries at its natural length.

**Algorithm.** Drawings, pictures and silence have no end. Media that are clearly too short are filled
up before the cut; media that are too short by less than a millionth of a second are not, so the
length of a leaf must not come so close to that of its media.

**Results.** `Leaf.Natural.lasts`: how long the streams of a leaf last after the cut.
-/

namespace Montage

variable {π : Type} {law : OverlayLaw} {s : Studio Lasting ℚ π}

open Lasting

namespace Timed

theorem sounded_eq (hs : s.filter = Filter.lasting law) (style : Style ℚ π) (a : Lasting) :
    s.sounded style a = a := by
  have hlouder : ∀ b, s.louder style b = b := by
    intro b
    unfold Studio.louder
    split
    · next volume hv =>
        unfold Filter.ofVolume? at hv
        split at hv
        · cases hv
        · cases hv
          simp [apply_eq hs, Filter.lasting]
    · simp [apply_eq hs, Filter.lasting]
  have hdoubled : ∀ b, s.doubled b = b := by
    intro b
    simp [Studio.doubled, hs, Filter.lasting, least_pair]
  unfold Studio.sounded
  split <;> simp [hlouder, hdoubled, apply_eq hs, Filter.lasting]

variable [PixelCount π]

theorem drawing_eq (hs : s.filter = Filter.lasting law) (style : Style ℚ π) (text : String) :
    s.drawing style text = ⊤ := by
  simp [Studio.drawing, apply_eq hs, board_eq hs, Filter.lasting]

theorem picture_eq (hs : s.filter = Filter.lasting law) (style : Style ℚ π) (v : Lasting) :
    s.picture style v = v := by
  have hframed : s.framed style v = v := by
    unfold Studio.framed
    simp only [apply_eq hs, Filter.lasting, least_singleton]
    split
    · rfl
    · exact overlay_eq hs _ _ _ v
  unfold Studio.picture
  split
  · simp only [apply_eq hs, Filter.lasting, least_singleton, hframed]
  · exact hframed

end Timed

namespace Leaf

/-- The media of a leaf last as long as its style knows, pictures without end. The length to which a
leaf is cut is covered by its media, or lacks more than a millionth of a second. -/
structure Supplied (s : Studio Lasting ℚ π) (kind : MediaKind) (locator : Locator)
    (style : Style ℚ π) : Prop where
  image : ∀ path, locator = .path path → kind = .image → s.stream ⟨path, kind⟩ .video = ⊤
  media : ∀ path, locator = .path path → kind.hasDuration = true → ∃ d : ℚ,
    style.source.duration = some d ∧ (∀ k, s.stream ⟨path, kind⟩ k = d) ∧
      ∀ t, style.objectLength = .seconds t → t ≤ d ∨ d + 1e-6 < t

/-- A stream has no end, or it is cut as the media of a leaf are. -/
def IsSupply (kind : MediaKind) (style : Style ℚ π) (a : Lasting) : Prop :=
  a = ⊤ ∨ kind.hasDuration = true ∧ ∃ d : ℚ, style.source.duration = some d ∧ a = d ∧
    ∀ t, style.objectLength = .seconds t → t ≤ d ∨ d + 1e-6 < t

section

variable {kind : MediaKind} {style : Style ℚ π} {a : Lasting}

/-- What is filled up if it is too short lasts as long as the leaf after the cut. -/
theorem IsSupply.min_eq (h : IsSupply kind style a) {t : ℚ} (ht : style.objectLength = .seconds t) :
    min (if runsShort kind style t then ⊤ else a) ↑t = (t : Lasting) := by
  obtain rfl | ⟨hk, d, hd, rfl, hcover⟩ := h
  · simp
  · simp only [runsShort, hk, hd, decide_eq_true_eq]
    split
    · exact top_inf_eq _
    · next hshort =>
        have hle : t ≤ d := (hcover t ht).resolve_right hshort
        exact min_eq_right (WithTop.coe_le_coe.2 hle)

theorem IsSupply.eq_top (h : IsSupply kind style a) (hk : kind.hasDuration = false) : a = ⊤ := by
  obtain rfl | ⟨hk', _⟩ := h
  · rfl
  · exact absurd (hk.symm.trans hk') Bool.false_ne_true

end

variable [PixelCount π] {kind : MediaKind} {locator : Locator} {style : Style ℚ π}
  {c : Content Lasting}

theorem Natural.isSupply (hs : s.filter = Filter.lasting law) (hn : Natural s style kind locator c)
    (hsup : Supplied s kind locator style) :
    (∀ v ∈ c.video, IsSupply kind style v) ∧ ∀ a ∈ c.audio, IsSupply kind style a := by
  cases hn with
  | text =>
      refine ⟨?_, by simp⟩
      rintro _ ⟨⟩
      exact Or.inl (Timed.drawing_eq hs style _)
  | @media _ path heard hk _ =>
      have hmedia : kind.hasDuration = true → ∀ k, IsSupply kind style (s.stream ⟨path, kind⟩ k) := by
        intro hd k
        obtain ⟨d, hdur, hlast, hcover⟩ := hsup.media path rfl hd
        exact Or.inr ⟨hd, d, hdur, hlast k, hcover⟩
      constructor
      · intro v hv
        simp only [Studio.media, Option.mem_def, Option.ite_none_right_eq_some,
          Option.some.injEq] at hv
        rw [← hv.2, Timed.picture_eq hs]
        cases kind with
        | text => exact absurd rfl hk
        | image => exact Or.inl (hsup.image path rfl rfl)
        | video => exact hmedia rfl .video
        | audio => exact hmedia rfl .video
      · intro a ha
        unfold Studio.media Studio.sound at ha
        simp only at ha
        split at ha
        · next audio h =>
            obtain ⟨hheard, hstream⟩ := Option.ite_none_right_eq_some.1 h
            obtain rfl := Option.some.inj hstream
            obtain rfl := Option.some.inj ha
            rw [Timed.sounded_eq hs]
            have hd : kind.hasDuration = true := by
              cases kind <;> simp [MediaKind.hasAudio] at hheard <;> rfl
            exact hmedia hd .audio
        · split at ha
          · cases ha
            exact Or.inl (by rw [hs, Filter.lasting])
          · cases ha

theorem Natural.lasts_of_seconds (hs : s.filter = Filter.lasting law)
    (hn : Natural s style kind locator c) (hsup : Supplied s kind locator style) {t : ℚ}
    (ht : style.objectLength = .seconds t) : (s.cut kind style c).Lasts t := by
  obtain ⟨hv, ha⟩ := hn.isSupply hs hsup
  have hcut : s.cut kind style c = c.map
      (fun v => min (if runsShort kind style t then ⊤ else v) ↑t)
      (fun a => min (if runsShort kind style t then ⊤ else a) ↑t) := by
    unfold Studio.cut
    rw [ht]
    simp only
    split <;> simp [Studio.applyBoth, Timed.apply_eq hs, Filter.lasting, Timed.extend_eq hs,
      Content.map, Function.comp_def]
  rw [hcut]
  constructor
  · intro v' hv'
    obtain ⟨v, hv'', rfl⟩ := Option.map_eq_some_iff.1 hv'
    exact (hv v hv'').min_eq ht
  · intro a' ha'
    obtain ⟨a, ha'', rfl⟩ := Option.map_eq_some_iff.1 ha'
    exact (ha a ha'').min_eq ht

theorem Natural.lasts_of_fit (hs : s.filter = Filter.lasting law)
    (hn : Natural s style kind locator c) (hsup : Supplied s kind locator style)
    (hf : style.objectLength = .fit) : (s.cut kind style c).Lasts ⊤ := by
  obtain ⟨hv, ha⟩ := hn.isSupply hs hsup
  unfold Studio.cut
  rw [hf]
  simp only
  split
  · simp [Content.Lasts, Studio.applyBoth, Content.map, Timed.apply_eq hs, Filter.lasting]
  · next hk =>
      have hk' : kind.hasDuration = false := Bool.eq_false_iff.2 hk
      exact ⟨fun v h => (hv v h).eq_top hk', fun a h => (ha a h).eq_top hk'⟩

/-- How long the streams of a leaf last after the cut. -/
theorem Natural.lasts (hs : s.filter = Filter.lasting law) (hn : Natural s style kind locator c)
    (hsup : Supplied s kind locator style)
    (ho : style.objectLength.IsTime ∨ style.objectLength = .fit) :
    (s.cut kind style c).Lasts style.objectLength.lasting := by
  rcases ho with ⟨t, ht, _⟩ | hf
  · rw [ht]
    exact hn.lasts_of_seconds hs hsup ht
  · rw [hf]
    exact hn.lasts_of_fit hs hsup hf

theorem Natural.video_none (hn : Natural s style kind locator c) :
    c.video = none ↔ kind.hasVideo = false := by
  cases hn with
  | text => simp [MediaKind.hasVideo]
  | media => simp [Studio.media]

omit [PixelCount π] in
theorem cut_none : (s.cut kind style c).video = none ↔ c.video = none := by
  unfold Studio.cut
  split
  · simp only
    split <;> simp [Studio.extend, Studio.applyBoth, Content.map]
  · split
    · simp [Studio.applyBoth, Content.map]
    · rfl
  · rfl

end Leaf

/-- A leaf of a known length lasts that long with its paddings. -/
theorem Denotes.leaf_lasts [PixelCount π] (hs : s.filter = Filter.lasting law) {tag : Tag}
    {kind : MediaKind} {locator : Locator} {style : Style ℚ π} {c : Content Lasting}
    (h : Denotes s (.leaf tag kind locator style) c) (hsup : Leaf.Supplied s kind locator style)
    (ht : style.IsTimed) : c.Lasts ↑style.paddedTime := by
  cases h with
  | leaf hn =>
      have hlasts := hn.lasts hs hsup (Or.inl ht.object)
      rw [ht.object.lasting] at hlasts
      rw [Timed.padded_eq hs ht.toIsPaced, ht.paddedTime_eq]
      exact hlasts.map rfl rfl

end Montage
