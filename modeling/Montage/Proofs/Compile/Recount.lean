import Montage.Proofs.Compile.Mirrors
import Montage.Proofs.Compile.Reel
import Montage.Proofs.Scene.Recount

/-!
# Films in other counts

A scene is compiled alike in two kinds of counts.

**Input.** A passage from one kind of counts to another, and a scene whose counts are found.

**Algorithm.** A compilation compares counts only where they are found: where it takes a canvas, whose
sides are those of a node with its paddings or those of the frame, and where it compares the box of a
leaf with that of its media. So each step of a compilation has a mirror in the other kind of counts,
which answers the same and leaves the same workshop behind.

**Results.**
* `Film.ofScene_recount`: a scene has the same film in either kind of counts, unless a calculation
  stops the program.
* `Film.ofScene_recount_eq`: it has the same film if the same calculations stop the program.
-/

namespace Montage

variable {τ π ρ : Type} [PixelCount π] [PixelCount ρ] {f : π → ρ}

/-! ### Streams -/

open Compile

namespace Streams

theorem mirrors_mapM {g h : Pad → Compile τ π Pad} {g' h' : Pad → Compile τ ρ Pad}
    (hg : ∀ p, Mirrors f id (g p) (g' p)) (hh : ∀ p, Mirrors f id (h p) (h' p)) (st : Streams) :
    Mirrors f id (st.mapM g h) (st.mapM g' h') :=
  .bind (.mapM hg st.video) fun _ => .bind (.mapM hh st.audio) fun _ => .pure id _

theorem mirrors_apply (onVideo onAudio : Filter τ π) (hv : onVideo.counts = [])
    (ha : onAudio.counts = []) (st : Streams) :
    Mirrors f id (st.apply onVideo onAudio)
      (st.apply (onVideo.recount f) (onAudio.recount f)) :=
  mirrors_mapM (.apply .video onVideo (.plain hv)) (.apply .audio onAudio (.plain ha)) st

/-- Two filters after each other. -/
theorem mirrors_twice (kind : StreamKind) (first second : Filter τ π) (h : first.counts = [])
    (h' : second.counts = []) (p : Pad) :
    Mirrors f id (Compile.apply kind first p >>= Compile.apply kind second)
      (Compile.apply kind (first.recount f) p >>= Compile.apply kind (second.recount f)) :=
  .bind (.apply kind first (.plain h) p) (.apply kind second (.plain h'))

theorem mirrors_extend (st : Streams) :
    Mirrors f id (st.extend : Compile τ π Streams) st.extend :=
  mirrors_apply .holdLast .padForever rfl rfl st

theorem mirrors_conform (t : τ) (color : Option Color) (st : Streams) :
    Mirrors f id (st.conform t color : Compile τ π Streams) (st.conform t color) :=
  mirrors_mapM (mirrors_twice .video (.holdAfter t _) (.trim .video t) rfl rfl)
    (mirrors_twice .audio (.padWhole t) (.trim .audio t) rfl rfl) st

variable [Timescale τ]

theorem mirrors_delay (t : τ) (color : Option Color) (st : Streams) :
    Mirrors f id (st.delay t color : Compile τ π Streams) (st.delay t color) :=
  .ite Iff.rfl (.pure id st) (mirrors_apply (.holdBefore t _) (.delay t) rfl rfl st)

theorem mirrors_append (t : τ) (color : Option Color) (st : Streams) :
    Mirrors f id (st.append t color : Compile τ π Streams) (st.append t color) :=
  .ite Iff.rfl (.pure id st) (mirrors_apply (.holdAfter t _) (.padAfter t) rfl rfl st)

theorem mirrors_padded (style : Style τ π) (st : Streams) :
    Mirrors f id (st.padded style) (st.padded (style.recount f)) :=
  .bind (mirrors_delay _ _ st) fun st => .ite Iff.rfl (.pure id st) (mirrors_append _ _ st)

theorem mirrors_spaced (style : Style τ π) (st : Streams) :
    Mirrors f id (st.spaced style) (st.spaced (style.recount f)) :=
  .bind (mirrors_delay _ _ st) fun st => .ite Iff.rfl (.pure id st) (mirrors_append _ _ st)

end Streams

/-! ### Styles -/

omit [PixelCount π] [PixelCount ρ] in
theorem Filter.ofVolume?_recount [Timescale τ] (f : π → ρ) (percent : Float) :
    (ofVolume? percent : Option (Filter τ ρ)) = (ofVolume? percent).map (recount f) := by
  unfold ofVolume?
  split <;> rfl

omit [PixelCount π] in
theorem Filter.counts_of_ofVolume? [Timescale τ] {percent : Float} {filter : Filter τ π}
    (h : ofVolume? percent = some filter) : filter.counts = [] := by
  unfold ofVolume? at h
  split at h
  · cases h
  · cases h
    rfl

namespace Style

variable {s : Style τ π}

theorem paddedWidth_recount (P : Passage f) (s : Style τ π) :
    (s.recount f).paddedWidth = s.paddedWidth.recount f := by
  simp only [paddedWidth, Length.recount_add P]
  rfl

theorem paddedHeight_recount (P : Passage f) (s : Style τ π) :
    (s.recount f).paddedHeight = s.paddedHeight.recount f := by
  simp only [paddedHeight, Length.recount_add P]
  rfl

theorem sideDiffers_recount (F : Passage.IsFaithful f) {l : Length π} {natural : Option π}
    (hl : ∀ n, l.pixels? = some n → PixelCount.IsFound n)
    (hn : ∀ n, natural = some n → PixelCount.IsFound n) :
    sideDiffers (l.recount f) (natural.map f) = sideDiffers l natural := by
  cases l with
  | pixel n =>
      cases natural with
      | none => rfl
      | some m =>
          have hinj : f m = f n ↔ m = n := ⟨F.inj (hn m rfl) (hl n rfl), congrArg f⟩
          simp only [sideDiffers, Length.recount, Length.pixels?_pixel, Option.map_some, ne_eq,
            Option.some.injEq, hinj]
  | _ => rfl

theorem needsResize_recount (F : Passage.IsFaithful f) (h : s.mishap? = none) :
    (s.recount f).needsResize = s.needsResize := by
  have hwidth : ∀ n, s.source.width = some n → PixelCount.IsFound n := fun n hn =>
    isFound_of_mem h (by simp [counts, hn])
  have hheight : ∀ n, s.source.height = some n → PixelCount.IsFound n := fun n hn =>
    isFound_of_mem h (by simp [counts, hn])
  have hw : sideDiffers (s.width.recount f) _ = _ :=
    sideDiffers_recount F (fun _ => isFound_side h (by simp)) hwidth
  have hh : sideDiffers (s.height.recount f) _ = _ :=
    sideDiffers_recount F (fun _ => isFound_side h (by simp)) hheight
  simp only [needsResize, recount_width, recount_height, recount_source, SourceFacts.recount_width,
    SourceFacts.recount_height, hw, hh]

end Style

/-! ### Leaves -/

namespace Leaf

theorem mirrors_doubled (audio : Pad) :
    Mirrors f id (doubled audio : Compile τ π Pad) (doubled audio) :=
  .bind (.fork .audio .audio _ (.split .audio) (.plain rfl)) fun _ =>
    .join .audio _ .mergeChannels (.plain rfl)

variable [Timescale τ]

theorem mirrors_soundOf (style : Style τ π) (audio : Pad) :
    Mirrors f id (soundOf style audio) (soundOf (style.recount f) audio) := by
  unfold soundOf
  extract_lets normalized louder normalized' louder'
  have hnormalized : ∀ p, Mirrors f id (normalized p) (normalized' p) := fun p =>
    .get_bind fun w _ => .apply .audio (.normalize w.sampleRate) (.plain rfl) p
  have hlouder : ∀ p, Mirrors f id (louder p) (louder' p) := by
    intro p
    have hvolume : (Filter.ofVolume? (style.recount f).audioVolume : Option (Filter τ ρ)) =
        (Filter.ofVolume? style.audioVolume).map (Filter.recount f) :=
      Filter.ofVolume?_recount f style.audioVolume
    simp only [louder, louder', hvolume]
    cases hv : (Filter.ofVolume? style.audioVolume : Option (Filter τ π)) with
    | none => exact hnormalized p
    | some volume =>
        have hplain := Filter.counts_of_ofVolume? hv
        exact .bind (.apply .audio volume (.plain hplain) p) hnormalized
  simp only [Style.recount_source, SourceFacts.recount_audioSystem, Style.recount_audioSystem]
  rcases style.source.audioSystem with _ | _ | _
  · exact hlouder audio
  · exact .bind (mirrors_doubled audio) hlouder
  · rcases style.audioSystem with _ | _ | _
    · exact hlouder audio
    · refine .bind (.apply .audio .downmix (.plain rfl) audio) fun mono => ?_
      exact .bind (mirrors_doubled mono) hlouder
    · exact hlouder audio

theorem mirrors_sound (kind : MediaKind) (style : Style τ π) (audio : Option Pad) :
    Mirrors f id (sound kind style audio) (sound kind (style.recount f) audio) := by
  unfold sound
  split
  · exact .map (mirrors_soundOf style _) some
  · refine .ite Iff.rfl (.get_bind fun w _ => ?_) (.pure id none)
    exact .map (.join .audio [] (.silence w.sampleRate) (.plain rfl)) some

theorem mirrors_cut (kind : MediaKind) (style : Style τ π) (st : Streams) :
    Mirrors f id (cut kind style st) (cut kind (style.recount f) st) := by
  have hshort : ∀ length : τ, runsShort kind (style.recount f) length =
      runsShort kind style length := fun _ => rfl
  have htrim : ∀ (length : τ) (st : Streams),
      Mirrors f id (st.apply (.trim .video length) (.trim .audio length) : Compile τ π Streams)
        (st.apply (.trim .video length) (.trim .audio length)) := fun length st =>
    Streams.mirrors_apply (.trim .video length) (.trim .audio length) rfl rfl st
  unfold cut
  rw [Style.recount_objectLength]
  cases style.objectLength with
  | seconds length =>
      simp only [hshort]
      split
      · exact .bind (Streams.mirrors_extend st) (htrim length)
      · exact htrim length st
  | fit =>
      refine .ite Iff.rfl ?_ (.pure id st)
      exact Streams.mirrors_apply (.loop .video) (.loop .audio) rfl rfl st
  | _ => exact .pure id st

variable (F : Passage.IsFaithful f) (tag : Tag) {style : Style τ π}
include F

omit [Timescale τ] in
theorem mirrors_canvas (style : Style τ π) :
    Mirrors f id (canvas tag style) (canvas tag (style.recount f)) := by
  unfold canvas
  rw [style.paddedWidth_recount F.toPassage, style.paddedHeight_recount F.toPassage]
  exact Compile.mirrors_canvas F tag _ _ _

variable (h : style.mishap? = none)
include h

omit [Timescale τ] in
theorem mirrors_pictureOf (video : Pad) :
    Mirrors f id (pictureOf tag style video) (pictureOf tag (style.recount f) video) := by
  unfold pictureOf
  extract_lets x y timed x' y' timed'
  have hzero : (style.recount f).padding.isZero = style.padding.isZero :=
    Edges.isZero_recount F fun l hl _ hn => Style.isFound_side h (List.mem_append_right _ hl) hn
  have hx : x' = f x := Length.pixelsOr_recount F.toPassage _
  have hy : y' = f y := Length.pixelsOr_recount F.toPassage _
  have hoverlay : (Filter.overlay x y .shortest : Filter τ π).IsFound :=
    .overlay (Style.isFound_pixelsOr h F.found_zero (by simp [Edges.toList]))
      (Style.isFound_pixelsOr h F.found_zero (by simp [Edges.toList]))
  have hscale : (Filter.scale style.width.pixels? style.height.pixels? : Filter τ π).IsFound := by
    intro n hn
    rw [Filter.counts, List.mem_append, Option.mem_toList, Option.mem_toList] at hn
    rcases hn with hn | hn
    · exact Style.isFound_side h (by simp) hn
    · exact Style.isFound_side h (by simp) hn
  have htimed : ∀ p, Mirrors f id (timed p) (timed' p) := by
    intro p
    refine .bind (.apply .video .squarePixels (.plain rfl) p) fun squared => .get_bind fun w _ => ?_
    refine .bind (.apply .video (.frameRate w.frame.fps) (.plain rfl) squared) fun rated => ?_
    refine .ite (by rw [hzero]) (.pure id rated) ?_
    refine .bind (mirrors_canvas F tag style) fun base => ?_
    rw [hx, hy]
    exact .join .video [base, rated] _ hoverlay
  rw [style.needsResize_recount F h, Style.recount_width, Style.recount_height,
    Length.pixels?_recount, Length.pixels?_recount]
  exact .ite Iff.rfl (.bind (.apply .video _ hscale video) htimed) (htimed video)

omit [Timescale τ] in
theorem mirrors_drawing (text : String) :
    Mirrors f id (drawing tag style text) (drawing tag (style.recount f) text) := by
  have hface : (style.recount f).face = style.face.recount f := by
    simp only [Style.face, Face.recount, Style.recount_fontSize]
    cases style.fontSize with
    | none => rfl
    | some l => cases l <;> rfl
  have hdraw : (Filter.drawText text (style.padding.left.pixelsOr 0)
      (style.padding.top.pixelsOr 0) style.face : Filter τ π).IsFound := by
    intro n hn
    simp only [Filter.counts, List.mem_append, List.mem_cons, List.not_mem_nil, or_false] at hn
    rcases hn with ((rfl | rfl) | hn) | hn
    · exact Style.isFound_pixelsOr h F.found_zero (by simp [Edges.toList])
    · exact Style.isFound_pixelsOr h F.found_zero (by simp [Edges.toList])
    · exact Style.isFound_of_mem h (List.mem_append_left _ (List.mem_append_right _ hn))
    · exact Style.isFound_of_mem h (List.mem_append_right _ hn)
  refine .bind (mirrors_canvas F tag style) fun base => ?_
  rw [Style.recount_padding, hface]
  simp only [Edges.recount, Length.pixelsOr_recount F.toPassage]
  exact .apply .video _ hdraw base

theorem mirrors_natural (kind : MediaKind) (locator : Locator) :
    Mirrors f id (natural tag kind locator style)
      (natural tag kind locator (style.recount f)) := by
  unfold natural
  split
  · exact .bind (mirrors_drawing F tag h _) fun video => .pure id _
  · exact .throw id _
  · refine .bind (mirrors_source _ _ _ _) fun streams => ?_
    refine .bind (.mapM (mirrors_pictureOf F tag h) _) fun video => ?_
    exact .bind (mirrors_sound _ style _) fun audio => .pure id _

theorem mirrors_compile (kind : MediaKind) (locator : Locator) :
    Mirrors f id (compile tag kind locator style)
      (compile tag kind locator (style.recount f)) :=
  .bind (mirrors_natural F tag h kind locator) fun st =>
    .bind (mirrors_cut kind style st) fun st => Streams.mirrors_padded style st

end Leaf

/-! ### Containers -/

theorem layeredOffset_recount (P : Passage f) (container child : Style τ π) :
    layeredOffset (container.recount f) (child.recount f) =
      Prod.map f f (layeredOffset container child) := by
  simp only [layeredOffset, Style.recount_padding, Style.recount_margin, Edges.recount,
    Length.pixelsOr_recount P, Prod.map, P.add]

namespace Playlist

theorem mirrors_concat (kind : StreamKind) (pads : List Pad) :
    Mirrors f id (concat kind pads : Compile τ π (Option Pad)) (concat kind pads) := by
  unfold concat
  split
  · exact .pure id none
  · exact .pure id _
  · exact .map (.join kind _ (.concat _ kind) (.plain rfl)) some

variable [Timescale τ]

theorem mirrors_addAudio (lead footprint : τ) (p : Playlist τ) (audio : Option Pad) :
    Mirrors f id (p.addAudio lead footprint audio : Compile τ π (Playlist τ))
      (p.addAudio lead footprint audio) := by
  unfold addAudio
  split
  · exact .pure id _
  · simp only
    split
    · exact .bind (.apply .audio (.delay _) (.plain rfl) _) fun segment => .pure id _
    · exact .pure id _

theorem mirrors_close (container : Style τ π) (p : Playlist τ) :
    Mirrors f id (p.close container) (p.close (container.recount f)) := by
  refine .bind (mirrors_concat .video _) fun video => ?_
  refine .bind (mirrors_concat .audio _) fun audio => ?_
  refine .ite Iff.rfl (Streams.mirrors_extend _) (Streams.mirrors_mapM ?_ ?_ _)
  · exact fun v => .ite Iff.rfl (.apply .video (.holdAfter _ _) (.plain rfl) v) (.pure id v)
  · exact fun a => .ite Iff.rfl (.apply .audio (.padAfter _) (.plain rfl) a) (.pure id a)

theorem mirrors_finish (container : Style τ π) (p : Playlist τ) :
    Mirrors f id (p.finish container) (p.finish (container.recount f)) := by
  rw [finish_eq, finish_eq]
  refine .bind (mirrors_close container p) fun st => ?_
  unfold size
  rw [Style.recount_objectLength]
  cases container.objectLength.seconds? with
  | none => exact .pure id _
  | some length => exact Streams.mirrors_conform length _ _

variable (F : Passage.IsFaithful f)
include F

theorem mirrors_addVideo (container child : Style τ π) (tag : Tag) (lead footprint : τ)
    (p : Playlist τ) (video : Option Pad) :
    Mirrors f id (p.addVideo container child tag lead footprint video)
      (p.addVideo (container.recount f) (child.recount f) tag lead footprint video) := by
  cases video with
  | none => exact .pure id _
  | some video =>
      refine .bind (Leaf.mirrors_canvas F tag container) fun base => ?_
      simp only [layeredOffset_recount F.toPassage]
      refine mirrors_counted F fun hfound => ?_
      refine .bind (.join .video [base, video] (.overlay _ _ .shortest) hfound) fun placed => ?_
      simp only [Style.recount_backgroundColor]
      split
      · exact .bind (.apply .video (.holdBefore _ _) (.plain rfl) placed) fun segment => .pure id _
      · exact .pure id _

theorem mirrors_add (container child : Style τ π) (tag : Tag) (p : Playlist τ) (st : Streams) :
    Mirrors f id (p.add container child tag st)
      (p.add (container.recount f) (child.recount f) tag st) :=
  .bind (mirrors_addVideo F container child tag _ _ p st.video) fun p =>
    .bind (mirrors_addAudio _ _ p st.audio) fun _ => .pure id _

end Playlist

/-- The flow with its counts passed on. -/
def Flow.recount (f : π → ρ) (flow : Flow π) : Flow ρ where
  axis := flow.axis
  reverse := flow.reverse
  position := f flow.position
  pending := f flow.pending
  crossPadding := f flow.crossPadding

namespace Flow

variable (P : Passage f)
include P

theorem start_recount (container : Style τ π) :
    start (container.recount f) = (start container).recount f := by
  simp only [start, recount, Style.recount_direction, Style.recount_padding, Style.extent_recount,
    Edges.along_recount P, Length.pixelsOr_recount P, Prod.map, P.zero, ← P.add, apply_ite f]

theorem place_recount (flow : Flow π) (child : Style τ π) :
    (flow.recount f).place (child.recount f) =
      Prod.map (Prod.map f f) (recount f) (flow.place child) := by
  obtain ⟨axis, reverse, position, pending, crossPadding⟩ := flow
  cases reverse <;>
    simp only [place, point, recount, Style.recount_margin, Style.recount_padding,
      Style.extent_recount, Edges.along_recount P, Length.pixelsOr_recount P, Prod.map, ← P.max, ← P.add, ← P.sub,
      Bool.false_eq_true, if_true, if_false] <;>
    cases axis <;> rfl

end Flow

/-- The mixdown with its counts passed on. -/
def Mixdown.recount (f : π → ρ) (m : Mixdown π) : Mixdown ρ :=
  ⟨m.video, m.tracks, m.flow.recount f⟩

namespace Mixdown

theorem mirrors_mix (pads : List Pad) :
    Mirrors f id (mix pads : Compile τ π (Option Pad)) (mix pads) := by
  unfold mix
  split
  · exact .pure id none
  · exact .pure id _
  · exact .map (.join .audio _ (.mix _) (.plain rfl)) some

theorem mirrors_fill (container : Style τ π) (audio : Pad) :
    Mirrors f id (fill container audio) (fill (container.recount f) audio) := by
  unfold fill
  rw [Style.recount_objectLength]
  cases container.objectLength.seconds? with
  | none => exact .apply .audio .padForever (.plain rfl) audio
  | some length =>
      exact Streams.mirrors_twice .audio (.padWhole length) (.trim .audio length) rfl rfl audio

theorem mirrors_finish (container : Style τ π) (m : Mixdown π) :
    Mirrors f id (m.finish container) ((m.recount f).finish (container.recount f)) :=
  .bind (mirrors_mix m.tracks) fun audio =>
    .bind (.mapM (mirrors_fill container) audio) fun _ => .pure id _

variable (F : Passage.IsFaithful f)
include F

theorem mirrors_ground (tag : Tag) (container : Style τ π) (visible : Bool) :
    Mirrors f id (ground tag container visible) (ground tag (container.recount f) visible) := by
  refine .ite Iff.rfl (.bind (Leaf.mirrors_canvas F tag container) fun base => ?_) (.pure id none)
  rw [Style.recount_objectLength]
  cases container.objectLength.seconds? with
  | none => exact .pure id _
  | some length => exact .map (.apply .video (.trim .video length) (.plain rfl) base) some

theorem mirrors_start (tag : Tag) (container : Style τ π) (visible : Bool) :
    Mirrors f (recount f) (start tag container visible)
      (start tag (container.recount f) visible) := by
  refine .bind (mirrors_ground F tag container visible) fun video => ?_
  rw [Flow.start_recount F.toPassage]
  refine mirrors_counted F fun _ => ?_
  exact .pure (recount f) ⟨video, [], Flow.start container⟩

theorem mirrors_add (container child : Style τ π) (m : Mixdown π) (st : Streams) :
    Mirrors f (recount f) (m.add container child st)
      ((m.recount f).add (container.recount f) (child.recount f) st) := by
  have hplace : (m.recount f).place (container.recount f) (child.recount f) =
      Prod.map (Prod.map f f) (Flow.recount f) (m.place container child) := by
    unfold place
    rw [Style.recount_layerMode]
    cases container.layerMode with
    | single => exact Flow.place_recount F.toPassage _ _
    | multi => exact Prod.ext (layeredOffset_recount F.toPassage container child) rfl
  unfold add
  cases st.video with
  | none => exact .pure (recount f) _
  | some layer =>
      have hvideo : (m.recount f).video = m.video := rfl
      rw [hplace]
      rcases m.place container child with ⟨⟨x, y⟩, flow⟩
      simp only [hvideo]
      refine mirrors_counted F fun hfound => ?_
      cases m.video with
      | none => exact .pure (recount f) ⟨some layer, _, flow⟩
      | some base =>
          have hoverlay : (Filter.overlay x y .pass : Filter τ π).IsFound :=
            (List.forall_mem_cons.1 hfound).2
          refine .bind (.join .video [base, layer] _ hoverlay) fun video => ?_
          exact .pure (recount f) ⟨some video, _, flow⟩

end Mixdown

/-! ### Scenes -/

variable [Timescale τ]

mutual

/-- A scene whose counts are found is compiled alike. -/
theorem mirrors_compileScene (F : Passage.IsFaithful f) : ∀ {scene : Scene τ π},
    (∀ node : Scene τ π, node.Within scene → node.style.mishap? = none) →
      Mirrors f id (compileScene scene) (compileScene (scene.recount f))
  | .leaf tag kind locator style, h => by
      have hstyle : style.mishap? = none := Scene.forall_within_leaf.1 h
      rw [Scene.recount, compileScene, compileScene]
      exact Leaf.mirrors_compile F tag hstyle kind locator
  | .container tag style items, h => by
      obtain ⟨-, hitems⟩ := Scene.forall_within_container.1 h
      rw [Scene.recount, compileScene, compileScene, Style.recount_order]
      cases style.order with
      | sequence =>
          refine .bind (mirrors_compileSequence F tag style .start hitems) fun p => ?_
          exact .bind (Playlist.mirrors_finish style p) fun st => Streams.mirrors_padded style st
      | parallel =>
          rw [Scene.anyVideo_recountAll]
          refine .bind (Mixdown.mirrors_start F tag style _) fun m => ?_
          refine .bind (mirrors_compileParallel F style m hitems) fun m => ?_
          exact .bind (Mixdown.mirrors_finish style m) fun st => Streams.mirrors_padded style st

theorem mirrors_compileSequence (F : Passage.IsFaithful f) (tag : Tag) (container : Style τ π) :
    ∀ (p : Playlist τ) {items : List (Scene τ π)},
      (∀ item ∈ items, ∀ node : Scene τ π, node.Within item → node.style.mishap? = none) →
      Mirrors f id (compileSequence tag container p items)
        (compileSequence tag (container.recount f) p (Scene.recountAll f items))
  | p, [], _ => by
      rw [Scene.recountAll, compileSequence, compileSequence]
      exact .pure id p
  | p, item :: rest, h => by
      obtain ⟨hfirst, hrest⟩ := List.forall_mem_cons.1 h
      rw [Scene.recountAll, compileSequence, compileSequence, Scene.style_recount]
      refine .bind (mirrors_compileScene F hfirst) fun st => ?_
      refine .bind (Playlist.mirrors_add F container item.style tag p st) fun p => ?_
      exact .ite Iff.rfl (.pure id p) (mirrors_compileSequence F tag container p hrest)

theorem mirrors_compileParallel (F : Passage.IsFaithful f) (container : Style τ π) :
    ∀ (m : Mixdown π) {items : List (Scene τ π)},
      (∀ item ∈ items, ∀ node : Scene τ π, node.Within item → node.style.mishap? = none) →
      Mirrors f (Mixdown.recount f) (compileParallel container m items)
        (compileParallel (container.recount f) (m.recount f) (Scene.recountAll f items))
  | m, [], _ => by
      rw [Scene.recountAll, compileParallel, compileParallel]
      exact .pure _ m
  | m, item :: rest, h => by
      obtain ⟨hfirst, hrest⟩ := List.forall_mem_cons.1 h
      rw [Scene.recountAll, compileParallel, compileParallel, Scene.style_recount]
      refine .bind (mirrors_compileScene F hfirst) fun st => ?_
      refine .bind (Streams.mirrors_spaced item.style st) fun st => ?_
      refine .bind (Mixdown.mirrors_add F container item.style m st) fun m => ?_
      exact mirrors_compileParallel F container m hrest

end

/-! ### Films -/

namespace Film

omit [Timescale τ] in
theorem mirrors_screen (F : Passage.IsFaithful f) (tag : Tag) (resolution : Resolution)
    (color : Option Color) :
    Mirrors f id (screen tag resolution color : Compile τ π Pad)
      (screen tag resolution color) := by
  have h := Compile.mirrors_canvas (τ := τ) F tag (.pixel (PixelCount.ofInt resolution.width))
    (.pixel (PixelCount.ofInt resolution.height)) color
  simp only [Length.recount, F.ofInt] at h
  exact h

variable {root : Scene τ π}

omit [Timescale τ] in
theorem mirrors_onScreen (F : Passage.IsFaithful f) (h : root.style.mishap? = none)
    (resolution : Resolution) (video : Pad) :
    Mirrors f id (onScreen root resolution video)
      (onScreen (root.recount f) resolution video) := by
  have hoverlay : (Filter.overlay (root.style.margin.left.pixelsOr 0)
      (root.style.margin.top.pixelsOr 0) .shortest : Filter τ π).IsFound :=
    .overlay (Style.isFound_pixelsOr h F.found_zero (by simp [Edges.toList]))
      (Style.isFound_pixelsOr h F.found_zero (by simp [Edges.toList]))
  unfold onScreen
  simp only [Scene.tag_recount, Scene.style_recount, Style.recount_backgroundColor,
    Style.recount_margin, Edges.recount, Length.pixelsOr_recount F.toPassage]
  refine .bind (mirrors_screen F root.tag resolution _) fun base => ?_
  exact .join .video [base, video] _ hoverlay

theorem mirrors_streams (F : Passage.IsFaithful f)
    (h : ∀ node : Scene τ π, node.Within root → node.style.mishap? = none)
    (resolution : Resolution) :
    Mirrors f id (streams root resolution) (streams (root.recount f) resolution) := by
  have hself : root.style.mishap? = none := h root (.self root)
  refine .bind (mirrors_compileScene F h) fun st => ?_
  refine .bind (.mapM (mirrors_onScreen F hself resolution) st.video) fun video => ?_
  rw [Scene.style_recount]
  refine .bind (Streams.mirrors_delay _ _ _) fun st => ?_
  refine .bind (Streams.mirrors_append _ _ st) fun st => ?_
  obtain ⟨video, audio⟩ := st
  rcases video with _ | video <;> rcases audio with _ | audio
  · exact .throw id .noStream
  · exact .pure id _
  · exact .pure id _
  · exact .bind (.fork .video .audio [video, audio] .pair (.plain rfl)) fun pads => .pure id _

/-- A scene whose counts are found has the same film in either kind of counts, and the counts of the
film are found. If the scene has none, it has none in the other kind of counts, unless a calculation
stops the program. -/
theorem ofScene_recount (F : Passage.IsFaithful f)
    (h : ∀ node : Scene τ π, node.Within root → node.style.mishap? = none) (frame : Frame τ)
    (sampleRate : Nat) :
    (∀ film, ofScene root frame sampleRate = .ok film →
      (∀ n ∈ film.counts, PixelCount.IsFound n) ∧
        ofScene (root.recount f) frame sampleRate = .ok (film.recount f)) ∧
    ∀ e, ofScene root frame sampleRate = .error e →
      ofScene (root.recount f) frame sampleRate = .error e ∨ e.IsLost f := by
  obtain ⟨hok, herror⟩ := mirrors_streams F h frame.resolution (.start frame sampleRate)
    ⟨List.forall_mem_nil _, List.forall_mem_nil _⟩
  have hstart : (Workshop.start frame sampleRate : Workshop τ π).recount f =
      .start frame sampleRate := rfl
  rw [hstart] at hok herror
  unfold ofScene
  rw [Scene.style_recount, Scene.tag_recount, Style.recount_objectLength]
  split
  · refine ⟨nofun, ?_⟩
    rintro _ ⟨⟩
    exact Or.inl rfl
  · cases hrun : streams root frame.resolution (.start frame sampleRate) with
    | error e =>
        refine ⟨nofun, ?_⟩
        rintro _ ⟨⟩
        rcases herror e hrun with he | hlost
        · rw [he]
          exact Or.inl rfl
        · exact Or.inr hlost
    | ok run =>
        obtain ⟨hfound, hsame⟩ := hok run.1 run.2 hrun
        rw [hsame]
        refine ⟨?_, nofun⟩
        rintro _ ⟨⟩
        refine ⟨List.forall_mem_flatMap.2 hfound.finish, ?_⟩
        change Except.ok _ = Except.ok (recount f _)
        simp only [recount, ← Workshop.finish_recount]
        rfl

/-- A scene whose counts are found has the same film if the same calculations stop the program. -/
theorem ofScene_recount_eq (F : Passage.IsFaithful f) (K : KeepsMishaps f)
    (h : ∀ node : Scene τ π, node.Within root → node.style.mishap? = none) (frame : Frame τ)
    (sampleRate : Nat) :
    ofScene (root.recount f) frame sampleRate =
      (ofScene root frame sampleRate).map (recount f) := by
  obtain ⟨hok, herror⟩ := ofScene_recount F h frame sampleRate
  cases hrun : ofScene root frame sampleRate with
  | ok film => exact (hok film hrun).2
  | error e => exact (herror e hrun).resolve_right (K.not_isLost e)

end Film

end Montage
