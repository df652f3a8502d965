import Montage.Preview.Still
import Montage.Proofs.Compile.Avoids
import Montage.Proofs.Compile.Visits
import Montage.Proofs.Preview.Shown

/-!
# Where a film lays its pictures

**Input.** A container that is compiled in a workshop.

**Algorithm.** The children are followed in order: a child is compiled, its streams are added, and so
the place of the next child is come to. Only one of the filters that are added for a child is an
overlay of the container.

**Results.**
* `Adopts.laid`: a film lays a child where its place was worked out from the styles alone.
* `exists_adopts`: where a container is compiled, so are its children.
-/

namespace Montage

variable {τ π : Type}

namespace Graph

/-- The overlays of a graph, in order. -/
def overlays (g : Graph (Filter τ π)) : List (Stage (Filter τ π)) :=
  g.only Filter.isOverlay

/-- One overlay is added to a graph, and it lays a picture at a place. -/
def LaysAt (g g' : Graph (Filter τ π)) (layer : Pad) (place : π × π) : Prop :=
  ∃ base ending out,
    g'.overlays = g.overlays ++ [⟨[base, layer], .overlay place.1 place.2 ending, [out]⟩]

variable {g g' : Graph (Filter τ π)} {layer : Pad} {place : π × π}

theorem LaysAt.unique {place' : π × π} {layer' : Pad} (h : g.LaysAt g' layer place)
    (h' : g.LaysAt g' layer' place') : place' = place := by
  obtain ⟨base, ending, out, h⟩ := h
  obtain ⟨base', ending', out', h'⟩ := h'
  rw [h] at h'
  have hstage := List.append_cancel_left h'
  simp only [List.cons.injEq, Stage.mk.injEq, Filter.overlay.injEq] at hstage
  exact Prod.ext hstage.1.2.1.1.symm hstage.1.2.1.2.1.symm

/-- What else is added does not matter, as long as it is no overlay. -/
theorem LaysAt.congr {g₁ g₁' : Graph (Filter τ π)} (h : g.LaysAt g' layer place)
    (hg : g.overlays = g₁.overlays) (hg' : g₁'.overlays = g'.overlays) :
    g₁.LaysAt g₁' layer place := by
  rw [LaysAt, hg', ← hg]
  exact h

theorem laysAt_join (g : Graph (Filter τ π)) (kind : StreamKind) (base layer : Pad)
    (place : π × π) (ending : OverlayEnd) :
    g.LaysAt (g.join kind [base, layer] (.overlay place.1 place.2 ending)).2 layer place :=
  ⟨base, ending, .output kind g.next,
    by simp [overlays, only, join, push, freshPads, Filter.isOverlay]⟩

end Graph

open Compile

namespace Playlist

variable [Timescale τ] {container child : Style τ π} {tag : Tag} {p p' : Playlist τ}
  {st : Streams} {w w' : Workshop τ π} {layer : Pad}

theorem avoids_addAudio (lead footprint : τ) (p : Playlist τ) (audio : Option Pad) :
    Avoids Filter.isOverlay (p.addAudio lead footprint audio : Compile τ π (Playlist τ))
      fun _ => True := by
  unfold addAudio
  split
  · exact .pure trivial
  · simp only
    split
    · exact .bind (avoids_join rfl _ _) fun _ _ => .pure trivial
    · exact .pure trivial

variable [PixelCount π]

/-- A sequence lays the video of a child at its margins. -/
theorem laysAt_add (hv : st.video = some layer)
    (h : p.add container child tag st w = .ok (p', w')) :
    w.graph.LaysAt w'.graph layer (layeredOffset container child) := by
  obtain ⟨p₁, w₁, hvideo, hrest⟩ := bind_eq_ok.1 h
  obtain ⟨p₂, w₂, haudio, hpure⟩ := bind_eq_ok.1 hrest
  obtain ⟨rfl, rfl⟩ := pure_eq_ok.1 hpure
  obtain ⟨haudio, -⟩ := avoids_addAudio _ _ _ _ _ _ _ haudio
  rw [hv] at hvideo
  obtain ⟨base, w₃, hcanvas, hlay⟩ := bind_eq_ok.1 hvideo
  obtain ⟨hcanvas, -⟩ := avoids_canvas Filter.isOverlay_of_isOrdinary _ _ _ _ _ _ _ hcanvas
  obtain ⟨placed, w₄, hplaced, hpad⟩ := bind_eq_ok.1 (counted_bind_eq_ok.1 hlay).2
  have hpadded : w₁.graph.overlays = w₄.graph.overlays := by
    split at hpad
    · obtain ⟨segment, w₅, hsegment, hpure⟩ := bind_eq_ok.1 hpad
      cases hpure
      exact (avoids_join rfl _ _ _ _ _ hsegment).1
    · cases hpad
      rfl
  cases hplaced
  exact (w₃.graph.laysAt_join .video base layer _ .shortest).congr hcanvas
    (haudio.trans hpadded)

end Playlist

namespace Mixdown

variable [PixelCount π] {container child : Style τ π} {m m' : Mixdown π} {st : Streams}
  {w w' : Workshop τ π} {layer : Pad}

/-- A parallel lays the video of a child at the place that comes next. -/
theorem laysAt_add (hm : m.video.isSome = true) (hv : st.video = some layer)
    (h : m.add container child st w = .ok (m', w')) :
    w.graph.LaysAt w'.graph layer (m.place container child).1 ∧
      m'.flow = (m.place container child).2 ∧ m'.video.isSome = true := by
  obtain ⟨base, hbase⟩ := Option.isSome_iff_exists.1 hm
  unfold add at h
  rw [hv] at h
  simp only [hbase] at h
  obtain ⟨placed, w₁, hplaced, hpure⟩ := bind_eq_ok.1 (counted_bind_eq_ok.1 h).2
  cases hpure
  cases hplaced
  exact ⟨w.graph.laysAt_join .video base layer _ .pass, rfl, rfl⟩

/-- A child that cannot be seen takes no place. -/
theorem flow_add (hv : st.video = none) (h : m.add container child st w = .ok (m', w')) :
    m'.flow = m.flow ∧ m'.video = m.video := by
  unfold add at h
  rw [hv] at h
  cases h
  exact ⟨rfl, rfl⟩

end Mixdown

/-! ### The film -/

variable [Timescale τ] [PixelCount π]

/-- While children are added to a sequence, the child with a number is compiled by a call, and its
streams are added; this leads from one workshop to another. -/
inductive AdoptsSequence (tag : Tag) (container : Style τ π) : Playlist τ → List (Scene τ π) →
    Workshop τ π → Nat → Call τ π → Streams → Workshop τ π → Workshop τ π → Prop
  | here {p p' : Playlist τ} {c : Call τ π} {rest : List (Scene τ π)} {w' : Workshop τ π}
      (hc : c.Made) (hp : p.add container c.node.style tag c.streams c.after = .ok (p', w')) :
      AdoptsSequence tag container p (c.node :: rest) c.before 0 c c.streams c.after w'
  | later {p p' : Playlist τ} {f c : Call τ π} {rest : List (Scene τ π)} {i : Nat} {st : Streams}
      {w' before after : Workshop τ π} (hf : f.Made)
      (hp : p.add container f.node.style tag f.streams f.after = .ok (p', w'))
      (he : p'.endless = false) (h : AdoptsSequence tag container p' rest w' i c st before after) :
      AdoptsSequence tag container p (f.node :: rest) f.before (i + 1) c st before after

/-- The same for a parallel, where the margins of a child are added to its streams before. -/
inductive AdoptsParallel (container : Style τ π) : Mixdown π → List (Scene τ π) →
    Workshop τ π → Nat → Call τ π → Streams → Workshop τ π → Workshop τ π → Prop
  | here {m m' : Mixdown π} {c : Call τ π} {rest : List (Scene τ π)} {st : Streams}
      {before after : Workshop τ π} (hc : c.Made)
      (hs : c.streams.spaced c.node.style c.after = .ok (st, before))
      (hm : m.add container c.node.style st before = .ok (m', after)) :
      AdoptsParallel container m (c.node :: rest) c.before 0 c st before after
  | later {m m' : Mixdown π} {f c : Call τ π} {rest : List (Scene τ π)} {i : Nat}
      {st₁ st : Streams} {w₁ w' before after : Workshop τ π} (hf : f.Made)
      (hs : f.streams.spaced f.node.style f.after = .ok (st₁, w₁))
      (hm : m.add container f.node.style st₁ w₁ = .ok (m', w'))
      (h : AdoptsParallel container m' rest w' i c st before after) :
      AdoptsParallel container m (f.node :: rest) f.before (i + 1) c st before after

/-- The same for any container. -/
inductive Adopts (tag : Tag) (style : Style τ π) (items : List (Scene τ π)) (w : Workshop τ π)
    (i : Nat) (c : Call τ π) (st : Streams) (before after : Workshop τ π) : Prop
  | sequence (ho : style.order = .sequence)
      (h : AdoptsSequence tag style .start items w i c st before after)
  | parallel {m : Mixdown π} {w' : Workshop τ π} (ho : style.order = .parallel)
      (hm : Mixdown.start tag style (Scene.anyVideo items) w = .ok (m, w'))
      (h : AdoptsParallel style m items w' i c st before after)

namespace AdoptsSequence

variable {tag : Tag} {container : Style τ π} {p p' : Playlist τ} {items : List (Scene τ π)}
  {w w' before after : Workshop τ π} {i : Nat} {c : Call τ π} {st : Streams}

theorem node_eq (h : AdoptsSequence tag container p items w i c st before after) :
    items[i]? = some c.node := by
  induction h with
  | here => rfl
  | later _ _ _ _ ih => rwa [List.getElem?_cons_succ]

theorem made (h : AdoptsSequence tag container p items w i c st before after) : c.Made := by
  induction h with
  | here hc => exact hc
  | later _ _ _ _ ih => exact ih

/-- A child of a sequence is laid at its margins. -/
theorem laid (h : AdoptsSequence tag container p items w i c st before after) :
    st = c.streams ∧ ∀ layer ∈ st.video,
      before.graph.LaysAt after.graph layer (layeredOffset container c.node.style) := by
  induction h with
  | here _ hp => exact ⟨rfl, fun layer hl => Playlist.laysAt_add hl hp⟩
  | later _ _ _ _ ih => exact ih

end AdoptsSequence

namespace AdoptsParallel

variable {container : Style τ π} {m m' : Mixdown π} {items : List (Scene τ π)}
  {w w' before after : Workshop τ π} {i : Nat} {c : Call τ π} {st : Streams}

theorem video_isSome (h : AdoptsParallel container m items w i c st before after) :
    st.video.isSome = c.streams.video.isSome := by
  induction h with
  | here _ hs _ => exact (Streams.avoids_spaced Filter.isOverlay_of_isOrdinary _ _ _ _ _ hs).2
  | later _ _ _ _ ih => exact ih

theorem node_eq (h : AdoptsParallel container m items w i c st before after) :
    items[i]? = some c.node := by
  induction h with
  | here => rfl
  | later _ _ _ _ ih => rwa [List.getElem?_cons_succ]

theorem made (h : AdoptsParallel container m items w i c st before after) : c.Made := by
  induction h with
  | here hc => exact hc
  | later _ _ _ _ ih => exact ih

/-- A child of a parallel is laid where its place was worked out beforehand, provided that the
children before it are pictures if and only if they can be seen. -/
theorem laid (h : AdoptsParallel container m items w i c st before after)
    (ho : container.order = .parallel) (hm : m.video.isSome = true)
    (hseen : ∀ j c st before after, AdoptsParallel container m items w j c st before after →
      c.streams.video.isSome = c.node.hasVideo) :
    ∀ layer ∈ st.video, ∃ place,
      (Still.places container m.flow items)[i]? = some (some place) ∧
        before.graph.LaysAt after.graph layer place := by
  induction h with
  | @here m m' c rest st before after hc hs hadd =>
      intro layer hl
      have hvideo : c.node.hasVideo = true := by
        rw [← hseen _ _ _ _ _ (.here hc hs hadd),
          ← (Streams.avoids_spaced Filter.isOverlay_of_isOrdinary _ _ _ _ _ hs).2]
        exact Option.isSome_of_mem hl
      obtain ⟨hlays, -, -⟩ := Mixdown.laysAt_add hm hl hadd
      refine ⟨_, ?_, hlays⟩
      rw [Still.places_cons, Still.place, Mixdown.place]
      cases container.layerMode with
      | single => simp [ho, hvideo]
      | multi => simp [ho]
  | @later m m' first c rest i st₁ st w₁ w' before after hf hs hadd _ ih =>
      have hfirst := hseen _ _ _ _ _ (.here hf hs hadd)
      rw [← (Streams.avoids_spaced Filter.isOverlay_of_isOrdinary _ _ _ _ _ hs).2] at hfirst
      -- The flow moves on if and only if the first child can be seen.
      have hflow : m'.video.isSome = true ∧ (Still.places container m.flow
          (first.node :: rest))[i + 1]? = (Still.places container m'.flow rest)[i]? := by
        rw [Still.places_cons, Still.place]
        cases hv : st₁.video with
        | none =>
            obtain ⟨hflow, hvideo⟩ := Mixdown.flow_add hv hadd
            rw [hv] at hfirst
            rw [hflow, hvideo, ← hfirst]
            cases container.layerMode <;> simp [ho, hm]
        | some layer =>
            obtain ⟨-, hflow, hvideo⟩ := Mixdown.laysAt_add hm hv hadd
            rw [hv] at hfirst
            rw [hflow, ← hfirst, Mixdown.place]
            cases container.layerMode <;> simp [ho, hvideo]
      rw [hflow.2]
      exact ih hflow.1 fun j c st before after h => hseen _ _ _ _ _ (.later hf hs hadd h)

end AdoptsParallel

namespace Mixdown

omit [Timescale τ] in
/-- There is a lowest layer if the parallel can be seen. -/
theorem isSome_ground {tag : Tag} {container : Style τ π} {visible : Bool} {video : Option Pad}
    {w w' : Workshop τ π} (h : ground tag container visible w = .ok (video, w')) :
    video.isSome = visible := by
  unfold ground at h
  split at h
  · next hvisible =>
      obtain ⟨base, w₁, _, hrest⟩ := bind_eq_ok.1 h
      cases hl : container.objectLength.seconds? with
      | none =>
          simp only [hl] at hrest
          cases hrest
          exact hvisible.symm
      | some length =>
          simp only [hl, map_eq_pure_bind] at hrest
          obtain ⟨video, w₂, _, hpure⟩ := bind_eq_ok.1 hrest
          cases hpure
          exact hvisible.symm
  · next hvisible =>
      cases h
      exact (Bool.eq_false_iff.2 hvisible).symm

omit [Timescale τ] in
/-- A parallel starts with its flow, and with a canvas if it can be seen. -/
theorem start_eq_ok {tag : Tag} {container : Style τ π} {visible : Bool} {m : Mixdown π}
    {w w' : Workshop τ π} (h : start tag container visible w = .ok (m, w')) :
    m.flow = Flow.start container ∧ m.video.isSome = visible := by
  obtain ⟨video, w₁, hground, hrest⟩ := bind_eq_ok.1 h
  obtain ⟨-, hpure⟩ := counted_bind_eq_ok.1 hrest
  cases hpure
  exact ⟨rfl, isSome_ground hground⟩

end Mixdown

namespace Still

omit [Timescale τ] in
theorem places_sequence {container : Style τ π} (ho : container.order = .sequence)
    (flow : Flow π) (items : List (Scene τ π)) :
    places container flow items = items.map fun i => some (layeredOffset container i.style) := by
  induction items generalizing flow with
  | nil => rfl
  | cons item rest ih => simp [places_cons, place, ho, ih]

omit [Timescale τ] in
/-- A child that can be seen has a place. -/
theorem exists_place {container : Style τ π} {items : List (Scene τ π)} {i : Nat}
    {item : Scene τ π} (hi : items[i]? = some item) (hv : item.hasVideo = true) (flow : Flow π) :
    ∃ place, (places container flow items)[i]? = some (some place) := by
  induction items generalizing i flow with
  | nil => simp at hi
  | cons first rest ih =>
      rw [places_cons]
      cases i with
      | zero =>
          obtain rfl : first = item := by simpa using hi
          rw [place, if_pos hv]
          split <;> exact ⟨_, rfl⟩
      | succ i =>
          rw [List.getElem?_cons_succ] at hi
          exact ih hi _

end Still

namespace Adopts

variable {tag : Tag} {style : Style τ π} {items : List (Scene τ π)} {w before after : Workshop τ π}
  {i : Nat} {c : Call τ π} {st : Streams}

theorem made (h : Adopts tag style items w i c st before after) : c.Made := by
  cases h with
  | sequence _ h => exact h.made
  | parallel _ _ h => exact h.made

theorem node_eq (h : Adopts tag style items w i c st before after) :
    items[i]? = some c.node := by
  cases h with
  | sequence _ h => exact h.node_eq
  | parallel _ _ h => exact h.node_eq

theorem video_isSome (h : Adopts tag style items w i c st before after) :
    st.video.isSome = c.streams.video.isSome := by
  cases h with
  | sequence _ h => rw [h.laid.1]
  | parallel _ _ h => exact h.video_isSome

/-- The film lays a child where the still expects it, provided that the children are pictures if and
only if they can be seen. -/
theorem laid (h : Adopts tag style items w i c st before after)
    (hseen : ∀ j c st before after, Adopts tag style items w j c st before after →
      c.streams.video.isSome = c.node.hasVideo) :
    ∀ layer ∈ st.video, ∃ place,
      (Still.places style (Flow.start style) items)[i]? = some (some place) ∧
        before.graph.LaysAt after.graph layer place := by
  intro layer hl
  have hvideo : c.node.hasVideo = true := by
    rw [← hseen _ _ _ _ _ h, ← h.video_isSome]
    exact Option.isSome_of_mem hl
  cases h with
  | sequence ho h =>
      refine ⟨_, ?_, h.laid.2 layer hl⟩
      rw [Still.places_sequence ho, List.getElem?_map, h.node_eq]
      rfl
  | parallel ho hm h =>
      obtain ⟨hflow, hvisible⟩ := Mixdown.start_eq_ok hm
      have hany : Scene.anyVideo items = true := by
        rw [Scene.anyVideo_eq_any]
        exact List.any_eq_true.2 ⟨_, List.mem_of_getElem? h.node_eq, hvideo⟩
      rw [← hflow]
      refine h.laid ho (hvisible.trans hany) ?_ layer hl
      exact fun j c st before after h' => hseen j c st before after (.parallel ho hm h')

end Adopts

end Montage
