import Montage.Proofs.Measure.Order
import Montage.Proofs.Preview.Overlays
import Montage.Proofs.Preview.Schedule

/-!
# How far clips are wound forward

In a still every clip that is shown is wound forward to the instant.

**Input.** A document whose scene is built, and the number of a frame.

**Algorithm.** What is visible is compiled child by child. A clip adds one filter that winds it
forward, and nothing else that is compiled adds such a filter.

**Results.**
* `Still.seeks_ofScene`: a still winds the clips that are shown forward, and nothing else.
* `Document.seeks_scene`: a clip is wound forward to an instant inside its object, and so inside its
  media if these last as long. `Document.seek_beyond_media` shows that they may not.
-/

namespace Montage

variable {τ π β γ : Type}

namespace Graph

/-- How far the filters of a graph wind media forward, in order. -/
def seeks (g : Graph (Filter τ π)) : List τ :=
  (g.only Filter.isSeek).filterMap fun s => s.filter.seek?

end Graph

namespace Style

variable [Timescale τ]

/-- An object covers what lies inside it. -/
theorem bounds_of_covers {style : Style τ π} {t : τ} (h : style.covers t = true) :
    0 ≤ t ∧ ∀ length, style.objectLength = .seconds length → t < length := by
  rw [covers, Bool.and_eq_true, decide_eq_true_iff] at h
  refine ⟨h.1, fun length hl => ?_⟩
  rw [hl] at h
  exact of_decide_eq_true h.2

end Style

namespace Pick

mutual

/-- The clips that are shown, in order, with the seconds into their media. -/
def clips : Pick τ π → List (Scene τ π × τ)
  | .leaf tag kind locator style offset =>
      if kind = .video then
        offset.toList.map fun o => (.leaf tag kind locator style, o)
      else
        []
  | .container _ _ _ items => clipsAmong items

/-- The clips that are shown among the children of a container. -/
def clipsAmong : List (Nat × Pick τ π) → List (Scene τ π × τ)
  | [] => []
  | (_, p) :: rest => p.clips ++ clipsAmong rest

end

mutual

/-- A clip is shown with the seconds into its media. -/
theorem shows_of_mem_clips : ∀ {p : Pick τ π} {clip : Scene τ π} {o : τ}, (clip, o) ∈ p.clips →
    ∃ path tag locator style, clip = .leaf tag .video locator style ∧ p.Shows path clip (some o)
  | .leaf tag kind locator style offset, clip, o, h => by
      rw [clips] at h
      obtain ⟨rfl, h⟩ := List.mem_ite_nil_right.1 h
      obtain ⟨_, ho, he⟩ := List.mem_map.1 h
      obtain ⟨rfl, rfl⟩ := Prod.mk.inj he
      obtain rfl := Option.mem_toList.1 ho
      exact ⟨[], tag, locator, style, rfl, .leaf⟩
  | .container tag style siblings items, clip, o, h => by
      rw [clips] at h
      obtain ⟨i, p, hi, path, tag', locator, style', rfl, hshows⟩ := shows_of_mem_clipsAmong h
      exact ⟨i :: path, tag', locator, style', rfl, .item hi hshows⟩

theorem shows_of_mem_clipsAmong : ∀ {items : List (Nat × Pick τ π)} {clip : Scene τ π} {o : τ},
    (clip, o) ∈ clipsAmong items → ∃ i p, (i, p) ∈ items ∧ ∃ path tag locator style,
      clip = .leaf tag .video locator style ∧ p.Shows path clip (some o)
  | [], clip, o, h => by
      rw [clipsAmong] at h
      cases h
  | (i, p) :: rest, clip, o, h => by
      rw [clipsAmong, List.mem_append] at h
      rcases h with h | h
      · exact ⟨i, p, List.mem_cons_self, shows_of_mem_clips h⟩
      · obtain ⟨j, q, hj, hshows⟩ := shows_of_mem_clipsAmong h
        exact ⟨j, q, List.mem_cons_of_mem _ hj, hshows⟩

end

variable [Timescale τ]

/-- A leaf that is shown stands in the scene, and the instant lies inside its object. -/
theorem Shows.covers {scene node : Scene τ π} {t o : τ} {p : Pick τ π} {path : List Nat}
    (h : p.Shows path node (some o)) (hp : pickScene scene t = some p) :
    node.Within scene ∧ node.style.covers o = true := by
  generalize ho : some o = offset at h
  induction h generalizing scene t with
  | leaf =>
      cases scene with
      | container =>
          rw [pickScene] at hp
          obtain ⟨_, hp⟩ := Option.ite_none_right_eq_some.1 hp
          cases hp
      | leaf =>
          rw [pickScene] at hp
          obtain ⟨_, hp⟩ := Option.ite_none_right_eq_some.1 hp
          obtain ⟨rfl, rfl, rfl, rfl, hoffset⟩ := Pick.leaf.inj (Option.some.inj hp)
          rw [← ho] at hoffset
          obtain ⟨hcovers, hsame⟩ := Option.ite_none_right_eq_some.1 hoffset
          cases hsame
          exact ⟨.self _, hcovers⟩
  | item hi h ih =>
      obtain ⟨rfl, item, second, hitem, hq⟩ := exists_of_mem_picked hp hi
      obtain ⟨hwithin, hcovers⟩ := ih hq ho
      exact ⟨.item (List.mem_of_getElem? (Scene.getElem_of_compiled hitem)) hwithin, hcovers⟩

end Pick

namespace Compile

/-- A step winds media forward so far, and nothing else. -/
def Winds (c : Compile τ π β) (offsets : List τ) : Prop :=
  ∀ w w' b, c w = .ok (b, w') → w'.graph.seeks = w.graph.seeks ++ offsets

namespace Winds

variable {c : Compile τ π β} {f : β → Compile τ π γ} {offsets offsets' : List τ}

theorem of_avoids (h : Avoids Filter.isSeek c fun _ => True) : Winds c [] := by
  intro w w' b hc
  rw [Graph.seeks, (h w w' b hc).1, List.append_nil]
  rfl

theorem throw (f : Failure) : Winds (MonadExcept.throw f : Compile τ π β) offsets := by
  intro w w' b hc
  cases hc

theorem bind (h : Winds c offsets) (hf : ∀ b, Winds (f b) offsets') :
    Winds (c >>= f) (offsets ++ offsets') := by
  intro w w'' b hc
  obtain ⟨a, w', ha, hb⟩ := bind_eq_ok.1 hc
  rw [hf a w' w'' b hb, h w w' a ha, List.append_assoc]

/-- What comes after a step that winds nothing forward. -/
theorem after (h : Avoids Filter.isSeek c fun _ => True)
    (hf : ∀ b, Winds (f b) offsets) : Winds (c >>= f) offsets :=
  bind (of_avoids h) hf

/-- A step comes after counts that are found. -/
theorem after_counted [PixelCount π] {ns : List π} (h : Winds c offsets) :
    Winds (counted ns >>= fun _ => c) offsets :=
  fun w w' b hc => h w w' b (counted_bind_eq_ok.1 hc).2

/-- What winds nothing forward may come after a step. -/
theorem before (h : Winds c offsets) (hf : ∀ b, Avoids Filter.isSeek (f b) fun _ => True) :
    Winds (c >>= f) offsets := by
  rw [← List.append_nil offsets]
  exact bind h fun b => of_avoids (hf b)

end Winds

theorem winds_seek (offset : τ) (p : Pad) :
    Winds (apply .video (.seek offset) p : Compile τ π Pad) [offset] := by
  intro w w' b hc
  cases hc
  simp [Graph.seeks, Graph.only, Graph.push, Filter.isSeek, Filter.seek?]

end Compile

open Compile

theorem Workshop.only_finish {kind : Filter τ π → Bool}
    (hk : ∀ f : Filter τ π, f.isOrdinary = true → kind f = false) (w : Workshop τ π) :
    w.finish.only kind = w.graph.only kind := by
  have hdrain : ∀ (stream : StreamKind) (pads : List Pad) (g : Graph (Filter τ π)),
      (drain stream g pads).only kind = g.only kind := by
    intro stream pads
    induction pads with
    | nil => exact fun g => rfl
    | cons p pads ih =>
        intro g
        exact (ih _).trans (g.only_push (hk _ rfl) [p] [])
  rw [finish, hdrain, hdrain]

variable [PixelCount π]

namespace Leaf

/-- The picture of media is brought to its box, wherever it starts. -/
theorem avoids_pictureOf (tag : Tag) (style : Style τ π) (video : Pad) :
    Avoids Filter.isSeek (pictureOf tag style video) fun _ => True := by
  unfold pictureOf
  extract_lets x y timed
  have htimed : ∀ p, Avoids Filter.isSeek (timed p) fun _ => True := by
    intro p
    refine .bind (avoids_join rfl .video [p]) fun squared _ => .get_bind fun w => ?_
    refine .bind (avoids_join rfl .video [squared]) fun rated _ => .ite (.pure trivial) ?_
    exact .bind (avoids_canvas Filter.isSeek_of_isOrdinary _ _ _ _) fun base _ =>
      avoids_join rfl .video [base, rated]
  split
  · exact .bind (avoids_join rfl .video [video]) fun p _ => htimed p
  · exact htimed video

end Leaf

variable [Timescale τ]

namespace Still

/-- A clip that is shown is wound forward, and nothing else. -/
theorem winds_leaf (tag : Tag) (kind : MediaKind) (locator : Locator) (style : Style τ π)
    (offset : Option τ) :
    Winds (leaf tag kind locator style offset) (if kind = .video then offset.toList else []) := by
  have hdrawn : ∀ text, Winds (Leaf.drawing tag style text) [] := fun text =>
    .of_avoids (Leaf.avoids_drawing Filter.isSeek_of_isOrdinary tag style text)
  cases offset with
  | none =>
      have hcanvas : Winds (leaf tag kind locator style none) [] :=
        .of_avoids (avoids_canvas Filter.isSeek_of_isOrdinary _ _ _ _)
      simpa using hcanvas
  | some offset =>
      unfold leaf
      simp only
      split
      · exact hdrawn _
      · exact hdrawn _
      · exact .throw _
      · next path _ =>
          refine .after (avoids_source Filter.isSeek_of_isOrdinary path kind true false) ?_
          rintro ⟨_ | video, audio⟩
          · exact .throw _
          · simp only
            split
            · exact .before (winds_seek offset video) fun wound =>
                .bind (avoids_join rfl .video [wound]) fun p _ => Leaf.avoids_pictureOf tag style p
            · exact .of_avoids (Leaf.avoids_pictureOf tag style video)

mutual

/-- Of what is visible, the clips are wound forward in order. -/
theorem winds_pick : ∀ {p : Pick τ π} {scene : Scene τ π} {t : τ}, pickScene scene t = some p →
    Winds (pick p) (p.clips.map Prod.snd)
  | .leaf tag kind locator style offset, scene, t, _ => by
      have hleaf := winds_leaf tag kind locator style offset
      rw [pick, Pick.clips]
      split
      · next h => simpa [h, Function.comp_def] using hleaf
      · next h => simpa [h] using hleaf
  | .container tag style siblings items, scene, t, h => by
      rw [pick, Pick.clips]
      refine .after (avoids_canvas Filter.isSeek_of_isOrdinary _ _ _ _) fun base => ?_
      -- Whatever is shown has a place, so no layer is passed over.
      refine .after_counted (winds_layers items _ base fun i q hq => ?_)
      obtain ⟨-, item, second, hitem, hq⟩ := exists_of_mem_picked h hq
      exact ⟨exists_place (Scene.getElem_of_compiled hitem) (hasVideo_of_pickScene hq) _,
        item, second, hq⟩

/-- The layers of a container are wound forward one after the other. -/
theorem winds_layers : ∀ (items : List (Nat × Pick τ π)) (places : List (Option (π × π)))
    (base : Pad), (∀ i q, (i, q) ∈ items → (∃ place, places[i]? = some (some place)) ∧
      ∃ scene t, pickScene scene t = some q) →
    Winds (layers places base items) ((Pick.clipsAmong items).map Prod.snd)
  | [], places, base, _ => by
      rw [layers]
      exact .of_avoids (.pure trivial)
  | (i, p) :: rest, places, base, h => by
      obtain ⟨⟨place, hplace⟩, scene, t, hp⟩ := h i p List.mem_cons_self
      have hrest := fun j q hq => h j q (List.mem_cons_of_mem _ hq)
      rw [layers, hplace, Pick.clipsAmong, List.map_append]
      refine .bind (winds_pick hp) fun layer => ?_
      exact .after (avoids_join rfl .video [base, layer]) fun base =>
        winds_layers rest places base hrest

end

omit [PixelCount π] in
theorem exists_pick_of_visible {root : Scene τ π} {second : τ} {p : Pick τ π}
    (h : visible root second = some p) : ∃ t, pickScene root t = some p := by
  unfold visible at h
  obtain ⟨-, h⟩ := Option.ite_none_left_eq_some.1 h
  exact ⟨_, h⟩

/-- The clips that are shown at a second of a document, in order, with the seconds into their
media. -/
def clips (root : Scene τ π) (second : τ) : List (Scene τ π × τ) :=
  (visible root second).elim [] Pick.clips

omit [PixelCount π] in
/-- A clip that is shown stands in the scene, and the instant lies inside its object. -/
theorem covers_of_mem_clips {root clip : Scene τ π} {second o : τ}
    (h : (clip, o) ∈ clips root second) : ∃ tag locator style,
      clip = .leaf tag .video locator style ∧ clip.Within root ∧ style.covers o = true := by
  unfold clips at h
  cases hv : visible root second with
  | none =>
      rw [hv] at h
      cases h
  | some p =>
      rw [hv] at h
      obtain ⟨t, hp⟩ := exists_pick_of_visible hv
      obtain ⟨path, tag, locator, style, rfl, hshows⟩ := Pick.shows_of_mem_clips h
      obtain ⟨hwithin, hcovers⟩ := hshows.covers hp
      exact ⟨tag, locator, style, rfl, hwithin, hcovers⟩

/-- In a picture the clips that are shown are wound forward, and nothing else. -/
theorem winds_picture (root : Scene τ π) (resolution : Resolution) (second : τ) :
    Winds (picture root resolution second) ((clips root second).map Prod.snd) := by
  have hscreen : Avoids Filter.isSeek
      (Film.screen root.tag resolution root.style.backgroundColor : Compile τ π Pad)
      fun _ => True :=
    avoids_canvas Filter.isSeek_of_isOrdinary _ _ _ _
  have hcontent : Winds ((visible root second).mapM pick) ((clips root second).map Prod.snd) := by
    unfold clips
    cases hv : visible root second with
    | none => exact .of_avoids (.pure trivial)
    | some p =>
        obtain ⟨t, hp⟩ := exists_pick_of_visible hv
        change Winds (some <$> pick p) _
        rw [map_eq_pure_bind]
        exact .before (winds_pick hp) fun _ => .pure trivial
  refine .before hcontent fun content => .bind hscreen fun base _ => ?_
  cases content with
  | none => exact .pure trivial
  | some content => exact avoids_join rfl .video [base, content]

/-- A still is the picture of a scene at the second of its frame. -/
theorem ofScene_eq_ok {root : Scene τ π} {frame : Frame τ} {index : Nat} {still : Still τ π}
    (h : ofScene root frame index = .ok still) : ∃ video w,
      picture root frame.resolution (secondOf frame index) (.start frame 48000) = .ok (video, w) ∧
        still = ⟨w.finish, video, index, secondOf frame index⟩ := by
  unfold ofScene at h
  simp only at h
  split at h
  · cases h
  · cases hc : picture root frame.resolution (secondOf frame index) (.start frame 48000) with
    | error e =>
        rw [hc] at h
        cases h
    | ok result =>
        rw [hc] at h
        cases h
        exact ⟨result.1, result.2, rfl, rfl⟩

/-- A still winds the clips that are shown forward, and nothing else. -/
theorem seeks_ofScene {root : Scene τ π} {frame : Frame τ} {index : Nat} {still : Still τ π}
    (h : ofScene root frame index = .ok still) :
    still.graph.seeks = (clips root (secondOf frame index)).map Prod.snd := by
  obtain ⟨video, w, hpicture, rfl⟩ := ofScene_eq_ok h
  rw [Graph.seeks, Workshop.only_finish Filter.isSeek_of_isOrdinary]
  exact winds_picture _ _ _ _ _ _ hpicture

end Still

namespace Document

variable [LawfulTimescale τ] {d : Document τ} {probe : Probe τ} {root : Scene τ π}

/-- In a still of a document the clips that are shown are wound forward, in order, and nothing else.
Every clip is wound forward to an instant inside its object, and so to one inside its media if the
media last as long as the object. -/
theorem seeks_scene (hfps : 0 < d.frame.fps) (hd : d.scene probe = .ok root) {index : Nat}
    {still : Still τ π} (hs : Still.ofScene root d.frame index = .ok still) :
    still.graph.seeks = (Still.clips root (Still.secondOf d.frame index)).map Prod.snd ∧
      ∀ clip o, (clip, o) ∈ Still.clips root (Still.secondOf d.frame index) →
        ∃ tag file style, clip = .leaf tag .video (.path file) style ∧ clip.Within root ∧
          style.IsProbed probe file ∧ 0 ≤ o ∧
          ∀ length, style.objectLength = .seconds length → o < length ∧
            ∀ duration, style.source.duration = some duration → length ≤ duration →
              o < duration := by
  refine ⟨Still.seeks_ofScene hs, fun clip o hclip => ?_⟩
  obtain ⟨tag, locator, style, rfl, hwithin, hcovers⟩ := Still.covers_of_mem_clips hclip
  obtain ⟨hnonneg, hlength⟩ := Style.bounds_of_covers hcovers
  cases isBuilt_scene hfps hd _ hwithin with
  | leaf hresolved hmedia =>
      obtain ⟨file, rfl, hprobed⟩ := hmedia rfl
      refine ⟨tag, file, style, rfl, hwithin, hprobed, hnonneg, fun length hl => ?_⟩
      exact ⟨hlength length hl, fun duration _ hle =>
        LawfulTimescale.lt_of_lt_of_le (hlength length hl) hle⟩

/-- A clip in a sequence of ten seconds. -/
def feature (length : String) : Document ℚ where
  baseDir := ⟨""⟩
  frame := ⟨⟨320, 180⟩, 25⟩
  sheet := .empty
  root :=
    ⟨.cont, [("style", "object-length:10s")],
      [⟨.vid, [("src", "a.mp4"), ("style", "object-length:" ++ length)], [], none⟩], none⟩

def featureProbe : Probe ℚ := fun _ =>
  .ok ⟨some 5, some ⟨320, 180⟩, none⟩

/-- Three seconds after the start of a clip of four seconds. -/
theorem feature_scene : (((feature "4s").scene featureProbe).toOption.map fun root : Scene ℚ Int =>
    ((Still.ofScene root (feature "4s").frame 75).toOption.map fun _ => (),
      match Still.clips root 3 with
      | [(clip, o)] => some (clip.style.objectLength.seconds?, clip.style.source.duration, o)
      | _ => none)) = some (some (), some (some 4, some 5, 3)) := by
  decide +kernel

theorem seeks_scene_feature : ∃ (root clip : Scene ℚ Int) (still : Still ℚ Int),
    (feature "4s").scene featureProbe = .ok root ∧
      Still.ofScene root (feature "4s").frame 75 = .ok still ∧ still.graph.seeks = [3] ∧
      Still.clips root 3 = [(clip, 3)] ∧ clip.style.source.duration = some 5 ∧ (3 : ℚ) < 5 := by
  obtain ⟨root, hroot, hrun⟩ := exists_ok_of_map feature_scene
  obtain ⟨hstill, hclips⟩ := Prod.mk.inj hrun
  obtain ⟨still, hstill, -⟩ := exists_ok_of_map hstill
  split at hclips
  · next clip o hclip =>
      simp only [Option.some.injEq, Prod.mk.injEq] at hclips
      obtain ⟨hlength, hduration, rfl⟩ := hclips
      have hsecond : Still.secondOf (feature "4s").frame 75 = 3 := by decide +kernel
      obtain ⟨hseeks, hinside⟩ := seeks_scene (by decide) hroot hstill
      rw [hsecond, hclip] at hseeks hinside
      obtain ⟨tag, file, style, rfl, -, -, -, hbelow⟩ := hinside clip 3 List.mem_cons_self
      have hobject : style.objectLength = .seconds 4 := by
        change style.objectLength.seconds? = some 4 at hlength
        cases ho : style.objectLength <;> rw [ho] at hlength <;> cases hlength
        rfl
      exact ⟨root, _, still, hroot, hstill, hseeks, hclip, hduration,
        (hbelow 4 hobject).2 5 hduration (by norm_num)⟩
  · cases hclips

/-- Seven seconds after the start of a clip that is repeated, whose media last five. -/
theorem feature_looped : (((feature "fit").scene featureProbe).toOption.map
    fun root : Scene ℚ Int =>
      ((Still.ofScene root (feature "fit").frame 175).toOption.map fun _ => (),
        (Still.clips root 7).map fun clip => (clip.1.style.source.duration, clip.2))) =
      some (some (), [(some 5, 7)]) := by
  decide +kernel

/-- Media that are repeated may be wound beyond their end. -/
theorem seek_beyond_media : ¬ ∀ (d : Document ℚ) (probe : Probe ℚ) (root : Scene ℚ Int)
    (index : Nat) (still : Still ℚ Int), 0 < d.frame.fps → d.scene probe = .ok root →
    Still.ofScene root d.frame index = .ok still →
    ∀ clip o, (clip, o) ∈ Still.clips root (Still.secondOf d.frame index) →
      ∀ duration, clip.style.source.duration = some duration → 0 < duration →
        0 ≤ o ∧ o < duration := by
  intro h
  obtain ⟨root, hroot, hrun⟩ := exists_ok_of_map feature_looped
  obtain ⟨hstill, hclips⟩ := Prod.mk.inj hrun
  obtain ⟨still, hstill, -⟩ := exists_ok_of_map hstill
  have hsecond : Still.secondOf (feature "fit").frame 175 = 7 := by decide +kernel
  obtain ⟨⟨clip, o⟩, hclip, hshown⟩ : ∃ c ∈ Still.clips root 7,
      (c.1.style.source.duration, c.2) = (some 5, 7) := by
    rw [← List.mem_map, hclips]
    exact List.mem_cons_self
  obtain ⟨hduration, rfl⟩ := Prod.mk.inj hshown
  have hinside := h _ _ root 175 still (by decide) hroot hstill clip 7 (hsecond ▸ hclip) 5
    hduration (by norm_num)
  exact absurd hinside.2 (by norm_num)

end Document
end Montage
