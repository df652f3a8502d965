import Montage.Proofs.Compile.Standard
import Montage.Proofs.Output.Wiring
import Montage.Scene.Build

/-!
# Streams that commands keep

Which streams of a scene the command for its film keeps in the output.

**Input.** A scene that has a film, and a job.

**Algorithm.** Whether a film has a video can be told from the tree of its scene. The palette of a
format takes a video and gives another; a format that cannot be heard loses the audio. What is left
is kept, one option a stream.

**Results.**
* `Denotes.video_isSome`: the streams of a scene have a video if and only if the scene shows one.
* `Plan.keeps_stream_iff`: a command keeps a stream if and only if the scene shows a video or the
  format can be heard.
* `Plan.song_left_out`: the command for a song as a moving picture keeps nothing.
-/

namespace Montage

variable {α τ π : Type} [Timescale τ]

/-! ### Videos of scenes -/

section

variable {s : Studio α τ π} {c : Content α}

namespace Studio

theorem video_isSome_delay (t : τ) (color : Option Color) (c : Content α) :
    (s.delay t color c).video.isSome = c.video.isSome := by
  unfold delay
  split <;> simp [applyBoth, Content.map]

theorem video_isSome_append (t : τ) (color : Option Color) (c : Content α) :
    (s.append t color c).video.isSome = c.video.isSome := by
  unfold append
  split <;> simp [applyBoth, Content.map]

theorem video_isSome_padded (style : Style τ π) (c : Content α) :
    (s.padded style c).video.isSome = c.video.isSome := by
  unfold padded
  simp only
  split
  · rw [video_isSome_delay]
  · rw [video_isSome_append, video_isSome_delay]

theorem video_isSome_spaced (style : Style τ π) (c : Content α) :
    (s.spaced style c).video.isSome = c.video.isSome := by
  unfold spaced
  simp only
  split
  · rw [video_isSome_delay]
  · rw [video_isSome_append, video_isSome_delay]

theorem video_isSome_cut (kind : MediaKind) (style : Style τ π) (c : Content α) :
    (s.cut kind style c).video.isSome = c.video.isSome := by
  unfold cut
  split
  · simp only
    split <;> simp [applyBoth, extend, Content.map]
  · split <;> simp [applyBoth, Content.map]
  · rfl

end Studio

variable [PixelCount π]

theorem Leaf.Natural.video_isSome {style : Style τ π} {kind : MediaKind} {locator : Locator}
    (h : Leaf.Natural s style kind locator c) : c.video.isSome = kind.hasVideo := by
  cases h with
  | text _ => rfl
  | media hk _ =>
      rw [Studio.media]
      cases kind.hasVideo <;> rfl

omit [PixelCount π] in
theorem Reel.video_isSome_finish (container : Style τ π) (r : Reel α τ) :
    (r.finish s container).video.isSome = !r.videos.isEmpty := by
  have hclose : (r.close s container).video.isSome = !r.videos.isEmpty := by
    rw [← isSome_concat (s := s) .video, close]
    split <;> simp [Studio.extend, Studio.applyBoth, Content.map]
  unfold finish
  split
  · rw [← hclose, Studio.conform, Content.map, Option.isSome_map]
  · exact hclose

namespace Blend

theorem video_isSome_start (container : Style τ π) (visible : Bool) :
    (start s container visible).video.isSome = visible := by
  cases visible <;> rfl

theorem video_isSome_add (container child : Style τ π) (b : Blend α π) (c : Content α) :
    (b.add s container child c).video.isSome = (b.video.isSome || c.video.isSome) := by
  unfold add
  cases c.video with
  | none => simp
  | some layer => cases hv : b.video <;> simp

end Blend

mutual

/-- What a scene denotes has a video if and only if the scene shows one. -/
theorem Denotes.video_isSome : ∀ {scene : Scene τ π} {c : Content α}, Denotes s scene c →
    c.video.isSome = scene.shows
  | _, _, .leaf hn => by
      rw [Studio.video_isSome_padded, Studio.video_isSome_cut, hn.video_isSome, Scene.shows]
  | _, _, .sequence ho h => by
      rw [Studio.video_isSome_padded, Reel.video_isSome_finish, h.videos_isEmpty, Scene.shows, ho]
      simp [Reel.start]
  | _, _, @Denotes.parallel _ _ _ _ _ _ tag style items b ho h => by
      have hshown : items.any Scene.shows = true → Scene.anyVideo items = true := by
        rw [Scene.anyVideo_eq_any, List.any_eq_true, List.any_eq_true]
        rintro ⟨item, hi, hshows⟩
        exact ⟨item, hi, Scene.hasVideo_of_shows hshows⟩
      have hblend : b.video.isSome = (Scene.anyVideo items || items.any Scene.shows) := by
        rw [h.video_isSome, Blend.video_isSome_start]
      rw [Studio.video_isSome_padded, Scene.shows, ho]
      change b.video.isSome = Scene.anyVideo items
      rw [hblend, Bool.or_eq_left_iff_imp.2 hshown]

theorem DenotesSequence.videos_isEmpty : ∀ {container : Style τ π} {r r' : Reel α τ}
    {items : List (Scene τ π)}, DenotesSequence s container r items r' →
      r'.videos.isEmpty = (r.videos.isEmpty && !Scene.showsSequence items)
  | _, _, _, _, .done => by simp [Scene.showsSequence]
  | _, _, _, _, @DenotesSequence.endless _ _ _ _ _ _ container r item rest c hc he => by
      have hfit : item.style.objectLength.isFit = true := he
      rw [Reel.videos_add, Scene.showsSequence, hfit, ← hc.video_isSome]
      cases c.video <;> simp
  | _, _, _, _, @DenotesSequence.next _ _ _ _ _ _ container r r' item rest c hc he h => by
      have hfit : item.style.objectLength.isFit = false := he
      rw [h.videos_isEmpty, Reel.videos_add, Scene.showsSequence, hfit, ← hc.video_isSome]
      cases c.video <;> simp

theorem DenotesParallel.video_isSome : ∀ {container : Style τ π} {b b' : Blend α π}
    {items : List (Scene τ π)}, DenotesParallel s container b items b' →
      b'.video.isSome = (b.video.isSome || items.any Scene.shows)
  | _, _, _, _, .done => by simp
  | _, _, _, _, @DenotesParallel.next _ _ _ _ _ _ container b b' item rest c hc h => by
      have hspaced : (s.spaced item.style c).video.isSome = item.shows := by
        rw [Studio.video_isSome_spaced, hc.video_isSome]
      rw [h.video_isSome, Blend.video_isSome_add, hspaced, List.any_cons, Bool.or_assoc]

end

/-! ### Streams of films -/

namespace Film

open Compile

theorem video_isSome_staged (style : Style τ π) (resolution : Resolution) (c : Content α) :
    (s.paired (s.staged style resolution c)).video.isSome = c.video.isSome := by
  have hstaged : (s.staged style resolution c).video.isSome = c.video.isSome := by
    rw [Studio.staged, Studio.video_isSome_append, Studio.video_isSome_delay, Option.isSome_map]
  rw [← hstaged, Studio.paired]
  split
  · next hv _ => rw [hv]; rfl
  · rfl

variable {root : Scene τ π} {frame : Frame τ} {sampleRate : Nat} {film : Film τ π}

/-- A film has a video if and only if its scene shows one. -/
theorem video_isSome (h : ofScene root frame sampleRate = .ok film) :
    film.video.isSome = root.shows := by
  let s : Studio Unit τ π := .unread frame sampleRate
  have hheard : root.Heard s := fun _ _ _ _ _ _ _ => trivial
  obtain ⟨st, w, c, out, -, rfl, hd, ⟨_, _, ⟨x, hx, hc, -⟩, -, -⟩, -⟩ := exists_run (s := s) h hheard
  change st.video.isSome = root.shows
  rw [← hd.video_isSome, ← video_isSome_staged (s := s) root.style s.frame.resolution c, hc, hx,
    Option.isSome_map, Option.isSome_map]

/-- A film has a stream. -/
theorem pads_ne_nil (h : ofScene root frame sampleRate = .ok film) : film.pads ≠ [] := by
  obtain ⟨-, st, w, hs, rfl⟩ := ofScene_eq_ok h
  unfold streams at hs
  obtain ⟨_, w₁, -, hs⟩ := bind_eq_ok.1 hs
  obtain ⟨_, w₂, -, hs⟩ := bind_eq_ok.1 hs
  obtain ⟨_, w₃, -, hs⟩ := bind_eq_ok.1 hs
  obtain ⟨⟨video, audio⟩, w₄, -, hs⟩ := bind_eq_ok.1 hs
  cases video <;> cases audio
  · cases hs
  · obtain ⟨rfl, rfl⟩ := pure_eq_ok.1 hs
    simp [pads]
  · obtain ⟨rfl, rfl⟩ := pure_eq_ok.1 hs
    simp [pads]
  · obtain ⟨_, w₅, -, hs⟩ := bind_eq_ok.1 hs
    obtain ⟨rfl, rfl⟩ := pure_eq_ok.1 hs
    simp [pads]

omit [Timescale τ] [PixelCount π] in
/-- Fitting a film to a format keeps its video, and its audio if the format can be heard. -/
theorem isSome_fitted (format : FileFormat) (film : Film τ π) :
    (film.fitted format).video.isSome = film.video.isSome ∧
      (film.fitted format).audio.isSome = (film.audio.isSome && format.hasAudio) := by
  obtain ⟨graph, video, audio, frame, duration⟩ := film
  unfold fitted muted reduced
  cases format <;> cases video <;> cases audio <;> exact ⟨rfl, rfl⟩

end Film

end

/-! ### Streams of commands -/

namespace Plan

variable [PixelCount π]

/-- Every stream that is left when a film is fitted to the format is kept by one option. -/
theorem length_kept {root : Scene τ π} {frame : Frame τ} {sampleRate : Nat} {film : Film τ π}
    (h : Film.ofScene root frame sampleRate = .ok film) (j : Job) :
    (valuesOf "-map" (ofFilm j film).arguments).length =
      root.shows.toNat + (film.audio.isSome && j.format.hasAudio).toNat := by
  have hfitted := (Film.closed_of_ofScene h).fitted j.format
  obtain ⟨hv, ha⟩ := Film.isSome_fitted j.format film
  rw [(valuesOf_ofFilm j film hfitted.inputs hfitted.outputs).1, List.length_map, Film.pads,
    List.length_append, ← Film.video_isSome h, ← hv, ← ha]
  cases (film.fitted j.format).video <;> cases (film.fitted j.format).audio <;> rfl

/-- The command for a film keeps its video, and its audio if the format can be heard. It keeps
nothing at all of a film that is only heard, in a format that cannot be heard. -/
theorem keeps_stream_iff {root : Scene τ π} {frame : Frame τ} {sampleRate : Nat} {film : Film τ π}
    (h : Film.ofScene root frame sampleRate = .ok film) (j : Job) :
    film.video.isSome = root.shows ∧ (root.shows = true ∨ film.audio.isSome = true) ∧
      (valuesOf "-map" (ofFilm j film).arguments).length =
        root.shows.toNat + (film.audio.isSome && j.format.hasAudio).toNat ∧
      (valuesOf "-map" (ofFilm j film).arguments ≠ [] ↔
        root.shows = true ∨ j.format.hasAudio = true) := by
  have hvideo := Film.video_isSome h
  have hstream : root.shows = true ∨ film.audio.isSome = true := by
    have hpads := Film.pads_ne_nil h
    rw [← hvideo]
    rw [Film.pads] at hpads
    cases hv : film.video with
    | some video => exact .inl rfl
    | none =>
        cases ha : film.audio with
        | some audio => exact .inr rfl
        | none => exact absurd (by rw [hv, ha]; rfl) hpads
  refine ⟨hvideo, hstream, length_kept h j, ?_⟩
  rw [← List.length_pos_iff, length_kept h j]
  rcases hstream with hshows | haudio
  · rw [hshows, Bool.toNat_true, Nat.one_add]
    exact iff_of_true (Nat.succ_pos _) (.inl rfl)
  · rw [haudio, Bool.true_and]
    cases root.shows <;> cases j.format.hasAudio <;> simp

/-- A document that is only heard. -/
def song : Document ℚ where
  baseDir := ⟨""⟩
  frame := ⟨⟨320, 180⟩, 25⟩
  sheet := .empty
  root := ⟨.cont, [], [⟨.aud, [("src", "a.mp3")], [], none⟩], none⟩

def songProbe : Probe ℚ := fun _ => .ok ⟨some 3, none, some ⟨some "stereo", none⟩⟩

def songJob (format : FileFormat) : Job :=
  ⟨⟨"song"⟩, format, true, false, 48000, 8000, 128, "ffmpeg"⟩

theorem exists_song : ∃ (root : Scene ℚ Int) (film : Film ℚ Int),
    song.scene songProbe = .ok root ∧ Film.ofScene root song.frame 48000 = .ok film ∧
      root.shows = false := by
  have hrun : ((song.scene songProbe).toOption.map fun root : Scene ℚ Int =>
      (root.shows, (Film.ofScene root song.frame 48000).toOption.map fun _ => ())) =
        some (false, some ()) := by
    decide +kernel
  obtain ⟨root, hroot, hrun⟩ := exists_ok_of_map hrun
  obtain ⟨hshows, hrun⟩ := Prod.mk.inj hrun
  obtain ⟨film, hfilm, -⟩ := exists_ok_of_map hrun
  exact ⟨root, film, hroot, hfilm, hshows⟩

/-- The command for a song as a moving picture keeps nothing. -/
theorem song_left_out : ¬ ∀ (d : Document ℚ) (probe : Probe ℚ) (root : Scene ℚ Int)
    (film : Film ℚ Int) (j : Job), d.scene probe = .ok root →
      Film.ofScene root d.frame j.sampleRate = .ok film →
        valuesOf "-map" (ofFilm j film).arguments ≠ [] := by
  intro h
  obtain ⟨root, film, hroot, hfilm, hshows⟩ := exists_song
  have hlength := length_kept hfilm (songJob .gif)
  rw [hshows, show (songJob .gif).format.hasAudio = false from rfl, Bool.and_false] at hlength
  exact h song songProbe root film (songJob .gif) hroot hfilm (List.length_eq_zero_iff.1 hlength)

theorem keeps_stream_song : ∃ (root : Scene ℚ Int) (film : Film ℚ Int),
    song.scene songProbe = .ok root ∧ Film.ofScene root song.frame 48000 = .ok film ∧
      (valuesOf "-map" (ofFilm (songJob .webm) film).arguments).length = 1 ∧
      valuesOf "-map" (ofFilm (songJob .gif) film).arguments = [] := by
  obtain ⟨root, film, hroot, hfilm, hshows⟩ := exists_song
  obtain ⟨-, hheard, hlength, -⟩ := keeps_stream_iff hfilm (songJob .webm)
  obtain ⟨-, -, -, hkeeps⟩ := keeps_stream_iff hfilm (songJob .gif)
  refine ⟨root, film, hroot, hfilm, ?_, ?_⟩
  · rw [hlength, hshows]
    rcases hheard with hs | ha
    · rw [hshows] at hs
      cases hs
    · rw [ha]
      rfl
  · by_contra hne
    rcases hkeeps.1 hne with hs | hs
    · rw [hshows] at hs
      cases hs
    · cases hs

end Plan

end Montage
