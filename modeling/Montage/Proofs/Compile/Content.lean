import Montage.Compile.Leaf
import Montage.Proofs.Compile.Requests

/-!
# What nodes carry

What the streams of a node carry, and what the steps that change both streams make of it.

**Input.** The streams of a node, and what they carry.

**Algorithm.** Every step on streams has a counterpart on their contents, which applies the same
filters under the reading of the studio.

**Results.** `Streams.moves_padded`, `Streams.moves_conform` and `Leaf.moves_compile`: the streams
that a step gives carry what its counterpart says.
-/

namespace Montage

variable {α τ π : Type}

/-- What the streams of a node carry. -/
structure Content (α : Type) where
  video : Option α
  audio : Option α

namespace Content

/-- Changes what is there. -/
def map (c : Content α) (onVideo onAudio : α → α) : Content α :=
  ⟨c.video.map onVideo, c.audio.map onAudio⟩

end Content

variable [Timescale τ]

namespace Studio

/-- Applies one filter to each stream that is there. -/
def applyBoth (s : Studio α τ π) (onVideo onAudio : Filter τ π) (c : Content α) : Content α :=
  c.map (s.apply onVideo .video) (s.apply onAudio .audio)

def delay (s : Studio α τ π) (t : τ) (color : Option Color) (c : Content α) : Content α :=
  if t ≤ 0 then c else s.applyBoth (.holdBefore t (Color.orTransparent color)) (.delay t) c

def append (s : Studio α τ π) (t : τ) (color : Option Color) (c : Content α) : Content α :=
  if t ≤ 0 then c else s.applyBoth (.holdAfter t (Color.orTransparent color)) (.padAfter t) c

def conform (s : Studio α τ π) (t : τ) (color : Option Color) (c : Content α) : Content α :=
  c.map
    (fun v => s.apply (.trim .video t) .video
      (s.apply (.holdAfter t (Color.orTransparent color)) .video v))
    (fun a => s.apply (.trim .audio t) .audio (s.apply (.padWhole t) .audio a))

def extend (s : Studio α τ π) (c : Content α) : Content α :=
  s.applyBoth .holdLast .padForever c

def padded (s : Studio α τ π) (style : Style τ π) (c : Content α) : Content α :=
  let c := s.delay style.timePaddingStart.secondsOrZero style.backgroundColor c
  if style.objectLength.isFit then
    c
  else
    s.append style.timePaddingEnd.secondsOrZero style.backgroundColor c

def spaced (s : Studio α τ π) (style : Style τ π) (c : Content α) : Content α :=
  let c := s.delay style.timeMarginStart.secondsOrZero none c
  if style.objectLength.isFit then
    c
  else
    s.append style.timeMarginEnd.secondsOrZero none c

end Studio

namespace Compile

variable {s : Studio α τ π}

/-- The streams of a node are given, carrying a content. -/
def CarryingStreams (c : Content α) (st : Streams) (out : Multiset (Pad × α)) : Prop :=
  ∃ x y, CarryingOption c.video st.video x ∧ CarryingOption c.audio st.audio y ∧ out = x + y

/-- A step on a stream that may be missing. -/
theorem moves_mapM {f : Pad → Compile τ π Pad} {op : α → α}
    (hf : ∀ p a, Moves s (f p) {(p, a)} (Carrying (op a))) {a : Option α} {p : Option Pad}
    {x : Multiset (Pad × α)} (hx : CarryingOption a p x) :
    Moves s (p.mapM f) x (CarryingOption (a.map op)) := by
  obtain ⟨x, rfl, rfl, rfl⟩ := hx
  cases x with
  | none => exact Moves.pure ⟨none, rfl, rfl, rfl⟩
  | some x =>
      obtain ⟨p, a⟩ := x
      refine Moves.map (hf p a) ?_
      rintro q _ rfl
      exact ⟨some (q, op a), rfl, rfl, rfl⟩

end Compile

namespace Streams

open Compile

variable {s : Studio α τ π} {c : Content α} {st : Streams} {x : Multiset (Pad × α)}

theorem moves_mapM {f g : Pad → Compile τ π Pad} {onVideo onAudio : α → α}
    (hf : ∀ p a, Moves s (f p) {(p, a)} (Carrying (onVideo a)))
    (hg : ∀ p a, Moves s (g p) {(p, a)} (Carrying (onAudio a))) (h : CarryingStreams c st x) :
    Moves s (st.mapM f g) x (CarryingStreams (c.map onVideo onAudio)) := by
  obtain ⟨x, y, hx, hy, rfl⟩ := h
  refine Moves.bind (Compile.moves_mapM hf hx) rfl ?_
  intro video x' hx'
  refine Moves.bind (Compile.moves_mapM hg hy) (add_comm x' y) ?_
  intro audio y' hy'
  exact Moves.pure ⟨x', y', hx', hy', add_comm y' x'⟩

theorem moves_apply (onVideo onAudio : Filter τ π) (h : CarryingStreams c st x) :
    Moves s (st.apply onVideo onAudio) x (CarryingStreams (s.applyBoth onVideo onAudio c)) :=
  moves_mapM (fun p a => Compile.moves_apply p a .video onVideo)
    (fun p a => Compile.moves_apply p a .audio onAudio) h

theorem moves_delay (t : τ) (color : Option Color) (h : CarryingStreams c st x) :
    Moves s (st.delay t color) x (CarryingStreams (s.delay t color c)) := by
  unfold delay Studio.delay
  split
  · exact Moves.pure h
  · exact moves_apply _ _ h

theorem moves_append (t : τ) (color : Option Color) (h : CarryingStreams c st x) :
    Moves s (st.append t color) x (CarryingStreams (s.append t color c)) := by
  unfold append Studio.append
  split
  · exact Moves.pure h
  · exact moves_apply _ _ h

/-- Two filters after each other. -/
theorem moves_twice (p : Pad) (a : α) (kind : StreamKind) (first second : Filter τ π) :
    Moves s (Compile.apply kind first p >>= Compile.apply kind second) {(p, a)}
      (Carrying (s.apply second kind (s.apply first kind a))) := by
  refine Moves.bind_all (Compile.moves_apply p a kind first) ?_
  rintro q _ rfl
  exact Compile.moves_apply q _ kind second

theorem moves_conform (t : τ) (color : Option Color) (h : CarryingStreams c st x) :
    Moves s (st.conform t color) x (CarryingStreams (s.conform t color c)) :=
  moves_mapM (fun p a => moves_twice p a .video _ _) (fun p a => moves_twice p a .audio _ _) h

theorem moves_extend (h : CarryingStreams c st x) :
    Moves s (st.extend : Compile τ π Streams) x (CarryingStreams (s.extend c)) :=
  moves_apply _ _ h

theorem moves_padded (style : Style τ π) (h : CarryingStreams c st x) :
    Moves s (st.padded style) x (CarryingStreams (s.padded style c)) := by
  refine Moves.bind_all (moves_delay _ _ h) ?_
  intro st' x' h'
  simp only [Studio.padded]
  split
  · exact Moves.pure h'
  · exact moves_append _ _ h'

theorem moves_spaced (style : Style τ π) (h : CarryingStreams c st x) :
    Moves s (st.spaced style) x (CarryingStreams (s.spaced style c)) := by
  refine Moves.bind_all (moves_delay _ _ h) ?_
  intro st' x' h'
  simp only [Studio.spaced]
  split
  · exact Moves.pure h'
  · exact moves_append _ _ h'

end Streams

namespace Studio

variable [PixelCount π]

/-- The padded canvas of a node. -/
def board (s : Studio α τ π) (style : Style τ π) : α :=
  s.canvas ⟨style.paddedWidth.pixelsOr 0, style.paddedHeight.pixelsOr 0,
    Color.orTransparent style.backgroundColor⟩

/-- A scaled picture at the frame rate, with the paddings around it. -/
def framed (s : Studio α τ π) (style : Style τ π) (video : α) : α :=
  let rated := s.apply (.frameRate s.frame.fps) .video (s.apply .squarePixels .video video)
  if style.padding.isZero then
    rated
  else
    s.filter (.overlay (style.padding.left.pixelsOr 0) (style.padding.top.pixelsOr 0) .shortest)
      [s.board style, rated] .video

/-- The picture of media in its box, with the paddings around it. -/
def picture (s : Studio α τ π) (style : Style τ π) (video : α) : α :=
  if style.needsResize then
    s.framed style (s.apply (.scale style.width.pixels? style.height.pixels?) .video video)
  else
    s.framed style video

/-- Text drawn on a canvas. -/
def drawing (s : Studio α τ π) (style : Style τ π) (text : String) : α :=
  s.apply (.drawText text (style.padding.left.pixelsOr 0) (style.padding.top.pixelsOr 0) style.face)
    .video (s.board style)

/-- One channel on both sides. -/
def doubled (s : Studio α τ π) (audio : α) : α :=
  s.filter .mergeChannels [audio, audio] .audio

/-- Sound at its volume and in the common format. -/
def louder (s : Studio α τ π) (style : Style τ π) (audio : α) : α :=
  match (Filter.ofVolume? style.audioVolume : Option (Filter τ π)) with
  | some volume => s.apply (.normalize s.sampleRate) .audio (s.apply volume .audio audio)
  | none => s.apply (.normalize s.sampleRate) .audio audio

/-- The sound of media: its channels, its volume, and a common format. -/
def sounded (s : Studio α τ π) (style : Style τ π) (audio : α) : α :=
  match style.source.audioSystem, style.audioSystem with
  | some .monaural, _ => s.louder style (s.doubled audio)
  | some .stereo, some .monaural => s.louder style (s.doubled (s.apply .downmix .audio audio))
  | _, _ => s.louder style audio

/-- The sound of a leaf of media; a video without sound is silent. -/
def sound (s : Studio α τ π) (kind : MediaKind) (style : Style τ π) (audio : Option α) :
    Option α :=
  match audio with
  | some audio => some (s.sounded style audio)
  | none => if kind = .video then some (s.filter (.silence s.sampleRate) [] .audio) else none

/-- A leaf of media at its natural length, when its file is heard or not. -/
def media (s : Studio α τ π) (kind : MediaKind) (path : Path) (style : Style τ π)
    (heard : Bool) : Content α where
  video := if kind.hasVideo then some (s.picture style (s.stream ⟨path, kind⟩ .video)) else none
  audio := s.sound kind style <|
    if kind.hasAudio && style.source.hasAudio && heard then some (s.stream ⟨path, kind⟩ .audio)
    else none

/-- The content of a leaf at its length. -/
def cut (s : Studio α τ π) (kind : MediaKind) (style : Style τ π) (c : Content α) : Content α :=
  match style.objectLength with
  | .seconds length =>
      let filled := if Leaf.runsShort kind style length then s.extend c else c
      s.applyBoth (.trim .video length) (.trim .audio length) filled
  | .fit => if kind.hasDuration then s.applyBoth (.loop .video) (.loop .audio) c else c
  | _ => c

end Studio

namespace Leaf

open Compile

variable {s : Studio α τ π}

theorem moves_doubled (audio : Pad) (a : α) :
    Moves s (doubled audio : Compile τ π Pad) {(audio, a)} (Carrying (s.doubled a)) := by
  refine Moves.bind_all (moves_split audio a .audio) ?_
  rintro ⟨left, right⟩ _ rfl
  exact moves_join [(left, a), (right, a)] .audio .mergeChannels

theorem moves_soundOf (style : Style τ π) (audio : Pad) (a : α) :
    Moves s (soundOf style audio) {(audio, a)} (Carrying (s.sounded style a)) := by
  unfold soundOf
  extract_lets normalized louder
  have hnormalized : ∀ p b, Moves s (normalized p) {(p, b)}
      (Carrying (s.apply (.normalize s.sampleRate) .audio b)) := by
    intro p b
    refine Moves.get_bind ?_
    intro w _ hw
    rw [hw]
    exact moves_apply p b .audio _
  have hlouder : ∀ p b, Moves s (louder p) {(p, b)} (Carrying (s.louder style b)) := by
    intro p b
    unfold louder Studio.louder
    cases (Filter.ofVolume? style.audioVolume : Option (Filter τ π)) with
    | some volume =>
        refine Moves.bind_all (moves_apply p b .audio volume) ?_
        rintro q _ rfl
        exact hnormalized q _
    | none => exact hnormalized p b
  unfold Studio.sounded
  rcases style.source.audioSystem with _ | _ | _
  · exact hlouder audio a
  · refine Moves.bind_all (moves_doubled audio a) ?_
    rintro p _ rfl
    exact hlouder p _
  · rcases style.audioSystem with _ | _ | _
    · exact hlouder audio a
    · refine Moves.bind_all (moves_apply audio a .audio .downmix) ?_
      rintro mono _ rfl
      refine Moves.bind_all (moves_doubled mono _) ?_
      rintro p _ rfl
      exact hlouder p _
    · exact hlouder audio a

theorem moves_sound (kind : MediaKind) (style : Style τ π) {audio : Option Pad} {a : Option α}
    {x : Multiset (Pad × α)} (h : CarryingOption a audio x) :
    Moves s (sound kind style audio) x (CarryingOption (s.sound kind style a)) := by
  obtain ⟨x, rfl, rfl, rfl⟩ := h
  cases x with
  | some x =>
      obtain ⟨p, a⟩ := x
      refine Moves.map (moves_soundOf style p a) ?_
      rintro q _ rfl
      exact ⟨some (q, _), rfl, rfl, rfl⟩
  | none =>
      unfold sound Studio.sound
      simp only [Option.map_none]
      split
      · refine Moves.get_bind ?_
        intro w _ hw
        rw [hw]
        refine Moves.map (moves_generate .audio (.silence s.sampleRate)) ?_
        rintro q _ rfl
        exact ⟨some (q, _), rfl, rfl, rfl⟩
      · exact Moves.pure ⟨none, rfl, rfl, rfl⟩

theorem moves_cut (kind : MediaKind) (style : Style τ π) {c : Content α} {st : Streams}
    {x : Multiset (Pad × α)} (h : CarryingStreams c st x) :
    Moves s (cut kind style st) x (CarryingStreams (s.cut kind style c)) := by
  unfold cut Studio.cut
  cases style.objectLength with
  | seconds length =>
      simp only
      split
      · refine Moves.bind_all (Streams.moves_extend h) ?_
        intro st' x' h'
        exact Streams.moves_apply _ _ h'
      · exact Streams.moves_apply _ _ h
  | fit =>
      simp only
      split
      · exact Streams.moves_apply _ _ h
      · exact Moves.pure h
  | _ => exact Moves.pure h

variable [PixelCount π]

theorem moves_canvas (tag : Tag) (style : Style τ π) :
    Moves s (canvas tag style) 0 (Carrying (s.board style)) := by
  refine Moves.mono (Compile.moves_canvas tag _ _ _) ?_
  rintro p out ⟨w, h, hw, hh, _, rfl⟩
  simp [Carrying, Studio.board, Length.pixelsOr, hw, hh]

theorem moves_pictureOf (tag : Tag) (style : Style τ π) (video : Pad) (a : α) :
    Moves s (pictureOf tag style video) {(video, a)} (Carrying (s.picture style a)) := by
  unfold pictureOf
  extract_lets x y timed
  -- What follows the scaling, whether there was one or not.
  have htimed : ∀ p b, Moves s (timed p) {(p, b)} (Carrying (s.framed style b)) := by
    intro p b
    refine Moves.bind_all (moves_apply p b .video .squarePixels) ?_
    rintro squared _ rfl
    refine Moves.get_bind ?_
    intro w hw _
    rw [hw]
    refine Moves.bind_all (moves_apply squared _ .video (.frameRate s.frame.fps)) ?_
    rintro rated _ rfl
    unfold Studio.framed
    split
    · exact Moves.pure rfl
    · refine Moves.bind_zero (moves_canvas tag style) ?_
      rintro base _ rfl
      exact moves_join [(base, _), (rated, _)] .video _
  unfold Studio.picture
  split
  · refine Moves.bind_all (moves_apply video a .video _) ?_
    rintro scaled _ rfl
    exact htimed scaled _
  · exact htimed video a

theorem moves_drawing (tag : Tag) (style : Style τ π) (text : String) :
    Moves s (drawing tag style text) 0 (Carrying (s.drawing style text)) := by
  refine Moves.bind_zero (moves_canvas tag style) ?_
  rintro base _ rfl
  exact moves_apply base _ .video _

/-- What a leaf draws; media are not drawn. -/
def drawn : Locator → String
  | .text t => t
  | .path _ => ""

/-- The file of a leaf may be heard as the leaf asks for it. -/
def Heard (s : Studio α τ π) (kind : MediaKind) (locator : Locator) (style : Style τ π) : Prop :=
  ∀ path, locator = .path path → s.hears ⟨path, kind⟩ (kind.hasAudio && style.source.hasAudio)

/-- What a leaf may carry at its natural length: a drawing, or media that may be heard or not. -/
inductive Natural (s : Studio α τ π) (style : Style τ π) : MediaKind → Locator → Content α → Prop
  | text (locator : Locator) :
      Natural s style .text locator ⟨some (s.drawing style (drawn locator)), none⟩
  | media {kind : MediaKind} {path : Path} {heard : Bool} (hk : kind ≠ .text)
      (hh : s.hears ⟨path, kind⟩ heard) :
      Natural s style kind (.path path) (s.media kind path style heard)

theorem moves_natural (tag : Tag) {kind : MediaKind} {locator : Locator} {style : Style τ π}
    (hh : Heard s kind locator style) :
    Moves s (natural tag kind locator style) 0 fun st out =>
      ∃ c, Natural s style kind locator c ∧ CarryingStreams c st out := by
  unfold natural
  split
  · refine Moves.bind_zero (moves_drawing tag style _) ?_
    rintro video _ rfl
    exact Moves.pure ⟨_, .text _, _, 0, ⟨some (video, _), rfl, rfl, rfl⟩,
      ⟨none, rfl, rfl, rfl⟩, rfl⟩
  · exact Moves.throw _
  · next path hk =>
      have hs := moves_source kind.hasVideo (hh path rfl)
      refine Moves.bind_all hs ?_
      rintro ⟨video, audio⟩ _ ⟨heard, x, y, hheard, hx, hy, rfl⟩
      rw [Bool.and_self] at hx
      refine Moves.bind (moves_mapM (moves_pictureOf tag style) hx) rfl ?_
      intro video' x' hx'
      refine Moves.bind (moves_sound kind style hy) (add_comm x' y) ?_
      intro audio' y' hy'
      refine Moves.pure ⟨_, .media hk hheard, x', y', ?_, hy', add_comm y' x'⟩
      rw [apply_ite (Option.map (s.picture style))] at hx'
      exact hx'

/-- The streams of a leaf carry its natural content, cut and padded. -/
theorem moves_compile (tag : Tag) {kind : MediaKind} {locator : Locator} {style : Style τ π}
    (hh : Heard s kind locator style) :
    Moves s (compile tag kind locator style) 0 fun st out =>
      ∃ c, Natural s style kind locator c ∧
        CarryingStreams (s.padded style (s.cut kind style c)) st out := by
  refine Moves.bind_all (moves_natural tag hh) ?_
  rintro st x ⟨c, hc, hx⟩
  refine Moves.bind_all (moves_cut kind style hx) ?_
  intro st' x' hx'
  refine Moves.mono (Streams.moves_padded style hx') ?_
  intro st'' x'' hx''
  exact ⟨c, hc, hx''⟩

end Leaf
end Montage
