import Montage.Compile.Scene
import Montage.Proofs.Compile.Content

/-!
# What containers carry

The counterparts of the playlist of a sequence and the mixdown of a parallel, on contents instead of
pads.

**Input.** A playlist or a mixdown, and what the pads in it carry.

**Algorithm.** Both sides add the content of a child in the same way; the gaps, the margin and the
flow are the same on both.

**Results.** `Playlist.moves_add`, `Playlist.moves_finish`, `Mixdown.moves_add` and
`Mixdown.moves_finish`: every step of a container carries what its counterpart says.
-/

namespace Montage

variable {α τ π : Type} [Timescale τ]

/-- What the segments of a sequence carry, and its gaps. -/
structure Reel (α τ : Type) where
  videos : List α
  audios : List α
  videoGap : τ
  audioGap : τ
  pending : τ
  endless : Bool

namespace Reel

variable [PixelCount π]

def start : Reel α τ :=
  ⟨[], [], 0, 0, 0, false⟩

def lead (r : Reel α τ) (child : Style τ π) : τ :=
  Timescale.longer child.timeMarginStart.secondsOrZero r.pending

/-- A video on the canvas of a sequence, after a gap. -/
def segment (s : Studio α τ π) (container child : Style τ π) (gap : τ) (video : α) : α :=
  let (x, y) := layeredOffset container child
  let placed := s.filter (.overlay x y .shortest) [s.board container, video] .video
  if 0 < gap then
    s.apply (.holdBefore gap (Color.orTransparent container.backgroundColor)) .video placed
  else
    placed

/-- A track after a gap. -/
def track (s : Studio α τ π) (gap : τ) (audio : α) : α :=
  if 0 < gap then s.apply (.delay gap) .audio audio else audio

def addVideo (s : Studio α τ π) (container child : Style τ π) (lead footprint : τ)
    (r : Reel α τ) : Option α → Reel α τ
  | none => { r with videoGap := r.videoGap + footprint }
  | some video =>
      { r with
        videos := r.videos ++ [segment s container child (r.videoGap + lead) video]
        videoGap := 0 }

def addAudio (s : Studio α τ π) (lead footprint : τ) (r : Reel α τ) : Option α → Reel α τ
  | none => { r with audioGap := r.audioGap + footprint }
  | some audio =>
      { r with audios := r.audios ++ [track s (r.audioGap + lead) audio], audioGap := 0 }

/-- Adds the content of a child. -/
def add (s : Studio α τ π) (container child : Style τ π) (r : Reel α τ) (c : Content α) :
    Reel α τ :=
  let lead := r.lead child
  let footprint := lead + child.paddedLength.secondsOrZero
  { (r.addVideo s container child lead footprint c.video).addAudio s lead footprint c.audio with
    pending := child.timeMarginEnd.secondsOrZero
    endless := child.objectLength.isFit }

/-- Segments end to end. -/
def concat (s : Studio α τ π) (kind : StreamKind) : List α → Option α
  | [] => none
  | [a] => some a
  | as => some (s.filter (.concat as.length kind) as kind)

def closeVideo (s : Studio α τ π) (container : Style τ π) (r : Reel α τ) (video : α) : α :=
  let rest := r.videoGap + r.pending
  if 0 < rest then
    s.apply (.holdAfter rest (Color.orTransparent container.backgroundColor)) .video video
  else
    video

def closeAudio (s : Studio α τ π) (r : Reel α τ) (audio : α) : α :=
  let rest := r.audioGap + r.pending
  if 0 < rest then s.apply (.padAfter rest) .audio audio else audio

/-- A sequence before its length is set. -/
def close (s : Studio α τ π) (container : Style τ π) (r : Reel α τ) : Content α :=
  let c : Content α := ⟨concat s .video r.videos, concat s .audio r.audios⟩
  if r.endless then s.extend c else c.map (r.closeVideo s container) (r.closeAudio s)

/-- A sequence at the length that its style sets. -/
def finish (s : Studio α τ π) (container : Style τ π) (r : Reel α τ) : Content α :=
  match container.objectLength.seconds? with
  | some length => s.conform length container.backgroundColor (r.close s container)
  | none => r.close s container

end Reel

namespace Playlist

open Compile

variable {s : Studio α τ π} {r : Reel α τ} {p : Playlist τ} {held : Multiset (Pad × α)}

/-- A playlist is given, its segments carrying those of a reel. -/
def Carrying (r : Reel α τ) (p : Playlist τ) (out : Multiset (Pad × α)) : Prop :=
  ∃ x y : List (Pad × α), out = ↑x + ↑y ∧ r.videos = x.map Prod.snd ∧
    r.audios = y.map Prod.snd ∧
    p = ⟨x.map Prod.fst, y.map Prod.fst, r.videoGap, r.audioGap, r.pending, r.endless⟩

theorem carrying_start : Carrying (Reel.start : Reel α τ) .start 0 :=
  ⟨[], [], rfl, rfl, rfl, rfl⟩

theorem moves_addAudio (lead footprint : τ) {audio : Option Pad} {a : Option α}
    {x : Multiset (Pad × α)} (h : Carrying r p held) (hx : CarryingOption a audio x) :
    Moves s (p.addAudio lead footprint audio) (x + held)
      (Carrying (r.addAudio s lead footprint a)) := by
  obtain ⟨v, u, rfl, hv, hu, rfl⟩ := h
  obtain ⟨x, rfl, rfl, rfl⟩ := hx
  cases x with
  | none => exact Moves.pure ⟨v, u, by simp, hv, hu, rfl⟩
  | some x =>
      obtain ⟨pad, a⟩ := x
      have hkept : ∀ q b, Carrying
          { r with audios := r.audios ++ [b], audioGap := 0 }
          ⟨v.map Prod.fst, u.map Prod.fst ++ [q], r.videoGap, 0, r.pending, r.endless⟩
          ({(q, b)} + (↑v + ↑u)) := by
        intro q b
        refine ⟨v, u ++ [(q, b)], ?_, hv, by simp [hu], by simp⟩
        rw [← Multiset.coe_add, ← Multiset.coe_singleton]
        ac_rfl
      unfold Reel.addAudio Reel.track addAudio
      simp only [Option.map_some]
      split
      · refine Moves.bind (moves_apply pad a .audio _) rfl ?_
        rintro track _ rfl
        exact Moves.pure (hkept track _)
      · exact Moves.pure (hkept pad a)

theorem moves_concat (kind : StreamKind) (x : List (Pad × α)) :
    Moves s (concat kind (x.map Prod.fst) : Compile τ π (Option Pad)) ↑x
      (CarryingOption (Reel.concat s kind (x.map Prod.snd))) := by
  match x with
  | [] => exact Moves.pure ⟨none, rfl, rfl, rfl⟩
  | [a] => exact Moves.pure ⟨some a, rfl, rfl, rfl⟩
  | a :: b :: rest =>
      refine Moves.map (moves_join (a :: b :: rest) kind (.concat _ kind)) ?_
      rintro q _ rfl
      exact ⟨some (q, _), by simp, by simp [Reel.concat], rfl⟩

theorem moves_closeVideo (container : Style τ π) (v u : List Pad) (video : Pad) (a : α) :
    Moves s (closeVideo container ⟨v, u, r.videoGap, r.audioGap, r.pending, r.endless⟩ video)
      {(video, a)} (Compile.Carrying (r.closeVideo s container a)) := by
  unfold closeVideo Reel.closeVideo
  simp only
  split
  · exact moves_apply video a .video _
  · exact Moves.pure rfl

theorem moves_closeAudio (v u : List Pad) (audio : Pad) (a : α) :
    Moves s (closeAudio ⟨v, u, r.videoGap, r.audioGap, r.pending, r.endless⟩ audio :
        Compile τ π Pad)
      {(audio, a)} (Compile.Carrying (r.closeAudio s a)) := by
  unfold closeAudio Reel.closeAudio
  simp only
  split
  · exact moves_apply audio a .audio _
  · exact Moves.pure rfl

/-- The streams of a sequence before its length is set. -/
def close (container : Style τ π) (p : Playlist τ) : Compile τ π Streams := do
  let video ← concat .video p.videos
  let audio ← concat .audio p.audios
  let st : Streams := ⟨video, audio⟩
  if p.endless then st.extend else st.mapM (p.closeVideo container) p.closeAudio

def size (container : Style τ π) (st : Streams) : Compile τ π Streams :=
  match container.objectLength.seconds? with
  | some length => st.conform length container.backgroundColor
  | none => pure st

/-- A sequence is closed, then brought to its length. -/
theorem finish_eq (container : Style τ π) (p : Playlist τ) :
    p.finish container = p.close container >>= size container := by
  simp only [finish, close, bind_assoc]
  congr
  funext video
  congr
  funext audio
  split <;> rfl

theorem moves_close (container : Style τ π) (h : Carrying r p held) :
    Moves s (p.close container) held (CarryingStreams (r.close s container)) := by
  obtain ⟨v, u, rfl, hv, hu, rfl⟩ := h
  refine Moves.bind (moves_concat .video v) rfl ?_
  intro video x hx
  refine Moves.bind (moves_concat .audio u) (add_comm x ↑u) ?_
  intro audio y hy
  rw [← hv] at hx
  rw [← hu] at hy
  have hc : CarryingStreams ⟨Reel.concat s .video r.videos, Reel.concat s .audio r.audios⟩
      ⟨video, audio⟩ (y + x) :=
    ⟨x, y, hx, hy, add_comm y x⟩
  unfold Reel.close
  simp only
  split
  · exact Streams.moves_extend hc
  · exact Streams.moves_mapM (moves_closeVideo container _ _) (moves_closeAudio _ _) hc

/-- The sequence is closed and brought to its length. -/
theorem moves_finish (container : Style τ π) (h : Carrying r p held) :
    Moves s (p.finish container) held (CarryingStreams (r.finish s container)) := by
  rw [finish_eq]
  refine Moves.bind_all (moves_close container h) ?_
  intro st out hst
  unfold Reel.finish size
  cases container.objectLength.seconds? with
  | some length => exact Streams.moves_conform length _ hst
  | none => exact Moves.pure hst

variable [PixelCount π]

theorem moves_addVideo (container child : Style τ π) (tag : Tag) (lead footprint : τ)
    {video : Option Pad} {a : Option α} {x : Multiset (Pad × α)} (h : Carrying r p held)
    (hx : CarryingOption a video x) :
    Moves s (p.addVideo container child tag lead footprint video) (x + held)
      (Carrying (r.addVideo s container child lead footprint a)) := by
  obtain ⟨v, u, rfl, hv, hu, rfl⟩ := h
  obtain ⟨x, rfl, rfl, rfl⟩ := hx
  cases x with
  | none => exact Moves.pure ⟨v, u, by simp, hv, hu, rfl⟩
  | some x =>
      obtain ⟨pad, a⟩ := x
      have hkept : ∀ q b, Carrying
          { r with videos := r.videos ++ [b], videoGap := 0 }
          ⟨v.map Prod.fst ++ [q], u.map Prod.fst, 0, r.audioGap, r.pending, r.endless⟩
          ({(q, b)} + (↑v + ↑u)) := by
        intro q b
        refine ⟨v ++ [(q, b)], u, ?_, by simp [hv], hu, by simp⟩
        rw [← Multiset.coe_add, ← Multiset.coe_singleton]
        ac_rfl
      refine Moves.bind_zero (Leaf.moves_canvas tag container) ?_
      rintro base _ rfl
      refine Moves.after_counted ?_
      refine Moves.bind (moves_join [(base, s.board container), (pad, a)] .video _) (l := ↑v + ↑u) ?_ ?_
      · rw [← add_assoc]
        rfl
      rintro placed _ rfl
      unfold Reel.addVideo Reel.segment
      simp only
      split
      · refine Moves.bind (moves_apply placed _ .video _) rfl ?_
        rintro segment _ rfl
        exact Moves.pure (hkept segment _)
      · exact Moves.pure (hkept placed _)

/-- A child is added. -/
theorem moves_add (container child : Style τ π) (tag : Tag) {st : Streams} {c : Content α}
    {x : Multiset (Pad × α)} (h : Carrying r p held) (hx : CarryingStreams c st x) :
    Moves s (p.add container child tag st) (x + held) (Carrying (r.add s container child c)) := by
  obtain ⟨x, y, hx, hy, rfl⟩ := hx
  have hlead : p.lead child = r.lead child := by
    obtain ⟨v, u, _, _, _, rfl⟩ := h
    rfl
  refine Moves.bind (moves_addVideo container child tag _ _ h hx) (l := y) (by ac_rfl) ?_
  intro p₁ out₁ h₁
  rw [add_comm]
  refine Moves.bind_all (moves_addAudio _ _ h₁ hy) ?_
  rintro p₂ out₂ ⟨v, u, rfl, hv, hu, rfl⟩
  rw [hlead] at hv hu ⊢
  exact Moves.pure ⟨v, u, rfl, hv, hu, rfl⟩

end Playlist

/-- What the layers and tracks of a parallel carry, and its flow. -/
structure Blend (α π : Type) where
  video : Option α
  tracks : List α
  flow : Flow π

namespace Blend

section

variable [PixelCount π]

def start (s : Studio α τ π) (container : Style τ π) (visible : Bool) : Blend α π :=
  let base := match container.objectLength.seconds? with
    | some length => s.apply (.trim .video length) .video (s.board container)
    | none => s.board container
  ⟨if visible then some base else none, [], .start container⟩

def place (container child : Style τ π) (b : Blend α π) : (π × π) × Flow π :=
  match container.layerMode with
  | .single => b.flow.place child
  | .multi => (layeredOffset container child, b.flow)

/-- Adds the content of a child. -/
def add (s : Studio α τ π) (container child : Style τ π) (b : Blend α π) (c : Content α) :
    Blend α π :=
  let tracks := b.tracks ++ c.audio.toList
  match c.video with
  | none => { b with tracks }
  | some layer =>
      let ((x, y), flow) := b.place container child
      match b.video with
      | some base => ⟨some (s.filter (.overlay x y .pass) [base, layer] .video), tracks, flow⟩
      | none => ⟨some layer, tracks, flow⟩

end

/-- Tracks over each other. -/
def mix (s : Studio α τ π) : List α → Option α
  | [] => none
  | [a] => some a
  | as => some (s.filter (.mix as.length) as .audio)

def fill (s : Studio α τ π) (container : Style τ π) (audio : α) : α :=
  match container.objectLength.seconds? with
  | some length =>
      s.apply (.trim .audio length) .audio (s.apply (.padWhole length) .audio audio)
  | none => s.apply .padForever .audio audio

/-- A parallel at the length that its style sets. -/
def finish (s : Studio α τ π) (container : Style τ π) (b : Blend α π) : Content α :=
  ⟨b.video, (mix s b.tracks).map (fill s container)⟩

end Blend

namespace Mixdown

open Compile

variable {s : Studio α τ π} {b : Blend α π} {m : Mixdown π} {held : Multiset (Pad × α)}

/-- A mixdown is given, its layers and tracks carrying those of a blend. -/
def Carrying (b : Blend α π) (m : Mixdown π) (out : Multiset (Pad × α)) : Prop :=
  ∃ (v : Option (Pad × α)) (u : List (Pad × α)), out = ↑v.toList + ↑u ∧
    b.video = v.map Prod.snd ∧ b.tracks = u.map Prod.snd ∧
    m = ⟨v.map Prod.fst, u.map Prod.fst, b.flow⟩

theorem moves_mix (x : List (Pad × α)) :
    Moves s (mix (x.map Prod.fst) : Compile τ π (Option Pad)) ↑x
      (CarryingOption (Blend.mix s (x.map Prod.snd))) := by
  match x with
  | [] => exact Moves.pure ⟨none, rfl, rfl, rfl⟩
  | [a] => exact Moves.pure ⟨some a, rfl, rfl, rfl⟩
  | a :: b :: rest =>
      refine Moves.map (moves_join (a :: b :: rest) .audio (.mix _)) ?_
      rintro q _ rfl
      exact ⟨some (q, _), by simp, by simp [Blend.mix], rfl⟩

theorem moves_fill (container : Style τ π) (audio : Pad) (a : α) :
    Moves s (fill container audio) {(audio, a)} (Compile.Carrying (Blend.fill s container a)) := by
  unfold fill Blend.fill
  cases container.objectLength.seconds? with
  | some length => exact Streams.moves_twice audio a .audio _ _
  | none => exact moves_apply audio a .audio _

/-- The parallel is closed and brought to its length. -/
theorem moves_finish (container : Style τ π) (h : Carrying b m held) :
    Moves s (m.finish container) held (CarryingStreams (b.finish s container)) := by
  obtain ⟨v, u, rfl, hv, hu, rfl⟩ := h
  refine Moves.bind (moves_mix u) (add_comm _ _) ?_
  intro audio x hx
  refine Moves.bind (Compile.moves_mapM (moves_fill container) hx) rfl ?_
  intro filled y hy
  rw [← hu] at hy
  exact Moves.pure ⟨_, y, ⟨v, rfl, hv, rfl⟩, hy, add_comm _ _⟩

variable [PixelCount π]

theorem moves_ground (tag : Tag) (container : Style τ π) (visible : Bool) :
    Moves s (ground tag container visible) 0
      (CarryingOption (Blend.start s container visible).video) := by
  unfold ground Blend.start
  cases visible with
  | false => exact Moves.pure ⟨none, rfl, rfl, rfl⟩
  | true =>
      refine Moves.bind_all (Leaf.moves_canvas tag container) ?_
      rintro base _ rfl
      simp only [if_true]
      cases container.objectLength.seconds? with
      | some length =>
          refine Moves.map (moves_apply base _ .video _) ?_
          rintro cut _ rfl
          exact ⟨some (cut, _), rfl, rfl, rfl⟩
      | none => exact Moves.pure ⟨some (base, _), rfl, rfl, rfl⟩

theorem moves_start (tag : Tag) (container : Style τ π) (visible : Bool) :
    Moves s (start tag container visible) 0 (Carrying (Blend.start s container visible)) := by
  refine Moves.bind_all (moves_ground tag container visible) ?_
  rintro video _ ⟨v, rfl, hv, rfl⟩
  exact Moves.after_counted (Moves.pure ⟨v, [], by simp, hv, rfl, rfl⟩)

/-- A child is added. -/
theorem moves_add (container child : Style τ π) {st : Streams} {c : Content α}
    {x : Multiset (Pad × α)} (h : Carrying b m held) (hx : CarryingStreams c st x) :
    Moves s (m.add container child st) (x + held) (Carrying (b.add s container child c)) := by
  obtain ⟨v, u, rfl, hv, hu, rfl⟩ := h
  obtain ⟨_, _, ⟨layer, hl, hcl, rfl⟩, ⟨track, ht, hct, rfl⟩, rfl⟩ := hx
  have htracks : u.map Prod.fst ++ st.audio.toList = (u ++ track.toList).map Prod.fst := by
    cases track <;> simp [ht]
  have htracks' : b.tracks ++ c.audio.toList = (u ++ track.toList).map Prod.snd := by
    cases track <;> simp [hct, hu]
  unfold add Blend.add
  rw [hl, hcl, htracks, htracks']
  cases layer with
  | none =>
      refine Moves.pure ⟨v, u ++ track.toList, ?_, hv, rfl, rfl⟩
      rw [← Multiset.coe_add, Option.toList_none, Multiset.coe_nil, zero_add]
      ac_rfl
  | some layer =>
      obtain ⟨p, a⟩ := layer
      cases v with
      | none =>
          rw [hv]
          refine Moves.after_counted (Moves.pure ⟨some (p, a), u ++ track.toList, ?_, rfl, rfl, rfl⟩)
          rw [← Multiset.coe_add, Option.toList_none, Multiset.coe_nil, zero_add]
          ac_rfl
      | some base =>
          obtain ⟨q, d⟩ := base
          rw [hv]
          refine Moves.after_counted ?_
          refine Moves.bind (moves_join [(q, d), (p, a)] .video _)
            (l := ↑(u ++ track.toList)) ?_ ?_
          · have hpair : (↑[(q, d), (p, a)] : Multiset (Pad × α)) =
                ↑(some (q, d)).toList + ↑(some (p, a)).toList :=
              rfl
            rw [hpair, ← Multiset.coe_add]
            ac_rfl
          rintro placed _ rfl
          exact Moves.pure ⟨some (placed, _), u ++ track.toList, rfl, rfl, rfl, rfl⟩

end Mixdown
end Montage
