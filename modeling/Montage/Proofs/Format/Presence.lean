import Montage.Proofs.Format.Leaves

/-!
# Streams of compiled nodes

Which streams the nodes of a document have when they are compiled.

**Input.** The scene of a document, and the calls that compile a part of it.

**Algorithm.** The streams of a node carry what the node denotes, and that says which streams there
are.

**Results.** `Visits.streams_present`: a node has a picture if it shows one and a sound if it sounds,
which is what it bears unless a sequence leaves out what follows an open child.
-/

namespace Montage

variable {τ π : Type} [Timescale τ] [PixelCount π]

/-- A compiled node has the streams that it shows and sounds, which it all bears. It has all that it
bears where no sequence in it has a child after an open one. -/
theorem Visits.streams_present [LawfulPixelCount π] {d : Document τ} {probe : Probe τ}
    {root top : Scene τ π} (hd : d.scene probe = .ok root) (htop : top.Within root)
    {frame : Frame τ} {sampleRate : Nat} {call : Call τ π}
    (h : Visits top (.start frame sampleRate) call) :
    (call.streams.video.isSome = call.node.shows ∧ call.streams.audio.isSome = call.node.sounds) ∧
    ((call.streams.video.isSome = true → call.node.hasVideo = true) ∧
      (call.streams.audio.isSome = true → call.node.hasAudio = true)) ∧
    (call.node.KeepsAll → call.streams.video.isSome = call.node.hasVideo ∧
      call.streams.audio.isSome = call.node.hasAudio) := by
  obtain ⟨cache, hbox⟩ := Document.exists_allBoxed hd
  let s : Studio (Format π × Prop) τ π := .accepted root frame sampleRate False
  have hheard : top.Heard s := fun tag kind locator style hw =>
    Scene.heard_formats hbox tag kind locator style (hw.trans htop)
  have hleaves : top.LeavesMeet s (.formats sampleRate False) := fun tag kind locator style hw =>
    Scene.leavesMeet_formats hbox False.elim tag kind locator style (hw.trans htop)
  obtain ⟨c, hmeets, hcarry⟩ := h.meets (s := s) Studio.upholds_formats hheard hleaves
  have hvideo : call.streams.video.isSome = call.node.shows := by
    rw [← hmeets.video_isSome, ← Option.isSome_map, hcarry.video, Option.isSome_map]
  have haudio : call.streams.audio.isSome = call.node.sounds := by
    rw [← hmeets.audio_isSome, ← Option.isSome_map, hcarry.audio, Option.isSome_map]
  rw [hvideo, haudio]
  exact ⟨⟨rfl, rfl⟩, ⟨Scene.hasVideo_of_shows, Scene.hasAudio_of_sounds⟩,
    fun hkeeps => hkeeps.streams_eq⟩

/-- A song without end, and a picture that is never reached. -/
def encore : Document ℚ where
  baseDir := ⟨""⟩
  frame := ⟨⟨320, 180⟩, 25⟩
  sheet := .empty
  root :=
    ⟨.cont, [("style", "object-length:5s")],
      [⟨.aud, [("src", "a.mp3"), ("style", "object-length:fit")], [], none⟩,
        ⟨.img, [("src", "b.png"), ("style", "object-length:2s")], [], none⟩], none⟩

def encoreProbe : Probe ℚ := fun path =>
  if path.text = "a.mp3" then .ok ⟨some 3, none, some ⟨some "stereo", none⟩⟩
  else .ok ⟨none, some ⟨320, 180⟩, none⟩

theorem exists_encore : ∃ (root : Scene ℚ Int) (call : Call ℚ Int),
    encore.scene encoreProbe = .ok root ∧ Visits root (.start encore.frame 48000) call ∧
      call.node.hasVideo = true ∧ call.streams.video = none ∧ call.streams.audio.isSome = true := by
  have hrun : ((encore.scene encoreProbe).toOption.map fun root : Scene ℚ Int =>
      (root.hasVideo, (compileScene root (.start encore.frame 48000)).toOption.map fun result =>
        (result.1.video, result.1.audio.isSome))) = some (true, some (none, true)) := by
    decide +kernel
  obtain ⟨root, hroot, hrun⟩ := exists_ok_of_map hrun
  obtain ⟨hsees, hrun⟩ := Prod.mk.inj hrun
  obtain ⟨⟨st, w⟩, hcall, hrun⟩ := exists_ok_of_map hrun
  obtain ⟨hvideo, haudio⟩ := Prod.mk.inj hrun
  let call : Call ℚ Int := ⟨root, .start encore.frame 48000, st, w⟩
  exact ⟨root, call, hroot, .self (c := call) hcall, hsees, hvideo, haudio⟩

/-- What bears a picture may have none when it is compiled. -/
theorem Visits.picture_left_out : ¬ ∀ (d : Document ℚ) (probe : Probe ℚ) (root : Scene ℚ Int)
    (sampleRate : Nat) (call : Call ℚ Int), d.scene probe = .ok root →
      Visits root (.start d.frame sampleRate) call →
        (call.streams.video.isSome = true ↔ call.node.hasVideo = true) ∧
          (call.streams.audio.isSome = true ↔ call.node.hasAudio = true) := by
  intro h
  obtain ⟨root, call, hroot, hcall, hsees, hnone, _⟩ := exists_encore
  have hsome := (h encore encoreProbe root 48000 call hroot hcall).1.2 hsees
  rw [hnone] at hsome
  cases hsome

theorem Visits.streams_present_encore : ∃ (root : Scene ℚ Int) (call : Call ℚ Int),
    encore.scene encoreProbe = .ok root ∧ Visits root (.start encore.frame 48000) call ∧
      call.node.shows = false ∧ call.node.sounds = true := by
  obtain ⟨root, call, hroot, hcall, _, hvideo, haudio⟩ := exists_encore
  obtain ⟨⟨hshows, hsounds⟩, _⟩ := hcall.streams_present hroot (.self root)
  exact ⟨root, call, hroot, hcall, by rw [← hshows, hvideo]; rfl, by rw [← hsounds, haudio]⟩

end Montage
