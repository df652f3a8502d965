import Montage.Proofs.Compile.Whole

/-!
# The calls inside a compilation

Every node that is compiled while a scene is compiled, with the workshop before and after, and the
film that comes of it.

**Input.** A scene and a workshop.

**Algorithm.** A call visits its own node, and what its children visit in the workshops that they
find.

**Results.**
* `Visits.balanced`: every node finds a workshop whose books are right.
* `Visits.denotes`: the streams of every node carry what it denotes.
* `Film.denotes`: those of a film carry what its scene denotes, on the screen.
* `exists_sequenceRun`: a sequence is compiled by calls for its children in order.
-/

namespace Montage

variable {α τ π : Type} [Timescale τ] [PixelCount π]

/-- The compilation of a node: the workshop that it finds, its streams, and the workshop that it
leaves. -/
structure Call (τ π : Type) where
  node : Scene τ π
  before : Workshop τ π
  streams : Streams
  after : Workshop τ π

namespace Call

/-- The compilation was carried out. -/
def Made (c : Call τ π) : Prop :=
  compileScene c.node c.before = .ok (c.streams, c.after)

end Call

mutual

/-- A call is made while a scene is compiled in a workshop. -/
inductive Visits : Scene τ π → Workshop τ π → Call τ π → Prop
  | self {c : Call τ π} (h : c.Made) : Visits c.node c.before c
  | sequence {tag : Tag} {style : Style τ π} {items : List (Scene τ π)} {w : Workshop τ π}
      {c : Call τ π} (ho : style.order = .sequence)
      (h : VisitsSequence tag style .start items w c) : Visits (.container tag style items) w c
  | parallel {tag : Tag} {style : Style τ π} {items : List (Scene τ π)} {m : Mixdown π}
      {w w' : Workshop τ π} {c : Call τ π} (ho : style.order = .parallel)
      (hm : Mixdown.start tag style (Scene.anyVideo items) w = .ok (m, w'))
      (h : VisitsParallel style m items w' c) : Visits (.container tag style items) w c

/-- A call is made while children are added to a sequence. -/
inductive VisitsSequence : Tag → Style τ π → Playlist τ → List (Scene τ π) → Workshop τ π →
    Call τ π → Prop
  | here {tag : Tag} {style : Style τ π} {p : Playlist τ} {item : Scene τ π}
      {rest : List (Scene τ π)} {w : Workshop τ π} {c : Call τ π} (h : Visits item w c) :
      VisitsSequence tag style p (item :: rest) w c
  | later {tag : Tag} {style : Style τ π} {p p' : Playlist τ} {first : Call τ π}
      {rest : List (Scene τ π)} {w' : Workshop τ π} {c : Call τ π} (hf : first.Made)
      (hp : p.add style first.node.style tag first.streams first.after = .ok (p', w'))
      (he : p'.endless = false) (h : VisitsSequence tag style p' rest w' c) :
      VisitsSequence tag style p (first.node :: rest) first.before c

/-- A call is made while children are added to a parallel. -/
inductive VisitsParallel : Style τ π → Mixdown π → List (Scene τ π) → Workshop τ π → Call τ π → Prop
  | here {style : Style τ π} {m : Mixdown π} {item : Scene τ π} {rest : List (Scene τ π)}
      {w : Workshop τ π} {c : Call τ π} (h : Visits item w c) :
      VisitsParallel style m (item :: rest) w c
  | later {style : Style τ π} {m m' : Mixdown π} {first : Call τ π} {st : Streams}
      {rest : List (Scene τ π)} {w' w'' : Workshop τ π} {c : Call τ π} (hf : first.Made)
      (hs : first.streams.spaced first.node.style first.after = .ok (st, w'))
      (hm : m.add style first.node.style st w' = .ok (m', w''))
      (h : VisitsParallel style m' rest w'' c) :
      VisitsParallel style m (first.node :: rest) first.before c

end

/-- These calls are made for the children of a sequence, one after the other; none of them is open. -/
inductive SequenceRun (tag : Tag) (container : Style τ π) :
    Playlist τ → Workshop τ π → List (Call τ π) → Playlist τ → Workshop τ π → Prop
  | done {p : Playlist τ} {w : Workshop τ π} : SequenceRun tag container p w [] p w
  | next {p p' p'' : Playlist τ} {w' w'' : Workshop τ π} {c : Call τ π} {calls : List (Call τ π)}
      (hc : c.Made)
      (hp : p.add container c.node.style tag c.streams c.after = .ok (p', w'))
      (h : SequenceRun tag container p' w' calls p'' w'') :
      SequenceRun tag container p c.before (c :: calls) p'' w''

/-- The streams of a node in a graph carry a content. -/
structure Streams.Carry (r : Reading α τ π) (g : Graph (Filter τ π)) (st : Streams)
    (c : Content α) : Prop where
  video : st.video.map (g.value r) = c.video.map some
  audio : st.audio.map (g.value r) = c.audio.map some

namespace Streams.Carry

variable {r : Reading α τ π} {g : Graph (Filter τ π)} {st : Streams} {c : Content α} {p : Pad}

omit [Timescale τ] [PixelCount π] in
theorem value_video (h : st.Carry r g c) (hp : p ∈ st.video) :
    ∃ v ∈ c.video, g.value r p = some v := by
  have hv := h.video
  rw [Option.mem_def.1 hp, Option.map_some] at hv
  obtain ⟨v, hm, hval⟩ := Option.map_eq_some_iff.1 hv.symm
  exact ⟨v, hm, hval.symm⟩

omit [Timescale τ] [PixelCount π] in
theorem value_audio (h : st.Carry r g c) (hp : p ∈ st.audio) :
    ∃ a ∈ c.audio, g.value r p = some a := by
  have ha := h.audio
  rw [Option.mem_def.1 hp, Option.map_some] at ha
  obtain ⟨a, hm, hval⟩ := Option.map_eq_some_iff.1 ha.symm
  exact ⟨a, hm, hval.symm⟩

omit [Timescale τ] [PixelCount π] in
theorem grows {g' : Graph (Filter τ π)} (h : st.Carry r g c) (hg : g.Grows r g') :
    st.Carry r g' c := by
  have hoption : ∀ (p : Option Pad) (a : Option α), p.map (g.value r) = a.map some →
      p.map (g'.value r) = a.map some := by
    rintro (_ | p) (_ | a) ha
    · rfl
    · cases ha
    · cases ha
    · exact congrArg some (hg.value p a (Option.some.inj ha))
  exact ⟨hoption _ _ h.video, hoption _ _ h.audio⟩

end Streams.Carry

namespace Compile

variable {s : Studio α τ π} {w : Workshop τ π}

omit [PixelCount π] in
theorem CarryingStreams.carry {c : Content α} {st : Streams} {out rest : Multiset (Pad × α)}
    (h : CarryingStreams c st out) (hw : w.Balanced s (out + rest)) :
    st.Carry s.toReading w.graph c := by
  obtain ⟨_, _, ⟨x, hx, hcx, rfl⟩, ⟨y, hy, hcy, rfl⟩, rfl⟩ := h
  have hval : ∀ z : Option (Pad × α), (∀ e ∈ z, e ∈ ↑x.toList + ↑y.toList + rest) →
      (z.map Prod.fst).map (w.graph.value s.toReading) = (z.map Prod.snd).map some := by
    intro z hz
    cases z with
    | none => rfl
    | some e => simpa using hw.values e (hz e rfl)
  constructor
  · rw [hx, hcx]
    exact hval x fun e he => by simp [Option.mem_def.1 he]
  · rw [hy, hcy]
    exact hval y fun e he => by simp [Option.mem_def.1 he]

end Compile

namespace Playlist

open Compile

theorem endless_add {container child : Style τ π} {tag : Tag} {p p' : Playlist τ} {st : Streams}
    {w w' : Workshop τ π} (h : p.add container child tag st w = .ok (p', w')) :
    p'.endless = child.objectLength.isFit := by
  obtain ⟨p₁, w₁, _, h⟩ := bind_eq_ok.1 h
  obtain ⟨p₂, w₂, _, h⟩ := bind_eq_ok.1 h
  obtain ⟨rfl, rfl⟩ := pure_eq_ok.1 h
  rfl

end Playlist

open Compile in
/-- A sequence without open children is compiled by one call a child. -/
theorem exists_sequenceRun {tag : Tag} {container : Style τ π} {items : List (Scene τ π)}
    (hfit : ∀ i ∈ items, i.style.objectLength.isFit = false) {p p' : Playlist τ}
    {w w' : Workshop τ π} (h : compileSequence tag container p items w = .ok (p', w')) :
    ∃ calls, SequenceRun tag container p w calls p' w' ∧ calls.map Call.node = items := by
  induction items generalizing p w with
  | nil =>
      rw [compileSequence] at h
      obtain ⟨rfl, rfl⟩ := pure_eq_ok.1 h
      exact ⟨[], .done, rfl⟩
  | cons item rest ih =>
      rw [compileSequence] at h
      obtain ⟨st, w₁, hc, h⟩ := bind_eq_ok.1 h
      obtain ⟨p₁, w₂, hp, h⟩ := bind_eq_ok.1 h
      rw [Playlist.endless_add hp, hfit item List.mem_cons_self] at h
      obtain ⟨calls, hr, hn⟩ := ih (fun i hi => hfit i (List.mem_cons_of_mem _ hi)) h
      let c : Call τ π := ⟨item, w, st, w₁⟩
      exact ⟨c :: calls, .next (c := c) hc hp hr, by simp [c, hn]⟩

/-- The calls of a run are made while the sequence is compiled. -/
theorem SequenceRun.visits {tag : Tag} {container : Style τ π} {p p' : Playlist τ}
    {w w' : Workshop τ π} {calls : List (Call τ π)}
    (h : SequenceRun tag container p w calls p' w')
    (hfit : ∀ c ∈ calls, c.node.style.objectLength.isFit = false) :
    ∀ c ∈ calls, VisitsSequence tag container p (calls.map Call.node) w c := by
  induction h with
  | done => simp
  | @next _ _ _ _ _ first calls hc hp _ ih =>
      intro c hm
      rcases List.mem_cons.1 hm with rfl | hm
      · exact .here (.self hc)
      · have he := (Playlist.endless_add hp).trans (hfit first List.mem_cons_self)
        exact .later hc hp he (ih (fun i hi => hfit i (List.mem_cons_of_mem _ hi)) c hm)

namespace Visits

open Compile

variable {s : Studio α τ π}

mutual

theorem made : ∀ {scene : Scene τ π} {w : Workshop τ π} {c : Call τ π}, Visits scene w c → c.Made
  | _, _, _, .self h => h
  | _, _, _, .sequence _ h => made_sequence h
  | _, _, _, .parallel _ _ h => made_parallel h

theorem made_sequence : ∀ {tag : Tag} {style : Style τ π} {p : Playlist τ}
    {items : List (Scene τ π)} {w : Workshop τ π} {c : Call τ π},
    VisitsSequence tag style p items w c → c.Made
  | _, _, _, _, _, _, .here h => made h
  | _, _, _, _, _, _, .later _ _ _ h => made_sequence h

theorem made_parallel : ∀ {style : Style τ π} {m : Mixdown π} {items : List (Scene τ π)}
    {w : Workshop τ π} {c : Call τ π}, VisitsParallel style m items w c → c.Made
  | _, _, _, _, _, .here h => made h
  | _, _, _, _, _, .later _ _ _ h => made_parallel h

end

mutual

theorem within : ∀ {scene : Scene τ π} {w : Workshop τ π} {c : Call τ π}, Visits scene w c →
    c.node.Within scene
  | _, _, _, .self _ => .self _
  | _, _, _, .sequence _ h => by
      obtain ⟨item, hi, hw⟩ := within_sequence h
      exact .item hi hw
  | _, _, _, .parallel _ _ h => by
      obtain ⟨item, hi, hw⟩ := within_parallel h
      exact .item hi hw

theorem within_sequence : ∀ {tag : Tag} {style : Style τ π} {p : Playlist τ}
    {items : List (Scene τ π)} {w : Workshop τ π} {c : Call τ π},
    VisitsSequence tag style p items w c → ∃ item ∈ items, c.node.Within item
  | _, _, _, _, _, _, .here h => ⟨_, List.mem_cons_self, within h⟩
  | _, _, _, _, _, _, .later _ _ _ h => by
      obtain ⟨item, hi, hw⟩ := within_sequence h
      exact ⟨item, List.mem_cons_of_mem _ hi, hw⟩

theorem within_parallel : ∀ {style : Style τ π} {m : Mixdown π} {items : List (Scene τ π)}
    {w : Workshop τ π} {c : Call τ π}, VisitsParallel style m items w c →
      ∃ item ∈ items, c.node.Within item
  | _, _, _, _, _, .here h => ⟨_, List.mem_cons_self, within h⟩
  | _, _, _, _, _, .later _ _ _ h => by
      obtain ⟨item, hi, hw⟩ := within_parallel h
      exact ⟨item, List.mem_cons_of_mem _ hi, hw⟩

end

mutual

/-- Every node finds a workshop whose books are right. -/
theorem balanced : ∀ {scene : Scene τ π} {w : Workshop τ π} {c : Call τ π}, Visits scene w c →
    scene.Heard s → ∀ rest, w.Balanced s rest → ∃ rest', c.before.Balanced s rest'
  | _, _, _, .self _, _, rest, hw => ⟨rest, hw⟩
  | _, _, _, .sequence _ h, hs, rest, hw =>
      balanced_sequence h (fun i hi => hs.item hi) .start 0 rest Playlist.carrying_start
        (by rwa [zero_add])
  | _, _, _, .parallel _ hm h, hs, rest, hw => by
      obtain ⟨⟨out, hb, hw'⟩, _⟩ := Mixdown.moves_start _ _ _ _ _ _ rest (by rwa [zero_add]) hm
      exact balanced_parallel h (fun i hi => hs.item hi) _ out rest hb hw'

theorem balanced_sequence : ∀ {tag : Tag} {style : Style τ π} {p : Playlist τ}
    {items : List (Scene τ π)} {w : Workshop τ π} {c : Call τ π},
    VisitsSequence tag style p items w c → (∀ i ∈ items, i.Heard s) →
      ∀ (r : Reel α τ) (held rest : Multiset (Pad × α)), Playlist.Carrying r p held →
        w.Balanced s (held + rest) → ∃ rest', c.before.Balanced s rest'
  | _, _, _, _, _, _, .here h, hs, _, held, rest, _, hw =>
      balanced h (hs _ List.mem_cons_self) (held + rest) hw
  | _, style, _, _, _, _, .later hf hp _ h, hs, _, held, rest, hr, hw => by
      obtain ⟨⟨x, ⟨d, _, hx⟩, hw'⟩, _⟩ :=
        Scene.moves_compile _ (hs _ List.mem_cons_self) _ _ _ (held + rest) (by rwa [zero_add]) hf
      rw [← add_assoc] at hw'
      obtain ⟨⟨held', hr', hw''⟩, _⟩ := Playlist.moves_add style _ _ hr hx _ _ _ rest hw' hp
      exact balanced_sequence h (fun i hi => hs i (List.mem_cons_of_mem _ hi)) _ held' rest hr' hw''

theorem balanced_parallel : ∀ {style : Style τ π} {m : Mixdown π} {items : List (Scene τ π)}
    {w : Workshop τ π} {c : Call τ π}, VisitsParallel style m items w c →
      (∀ i ∈ items, i.Heard s) → ∀ (b : Blend α π) (held rest : Multiset (Pad × α)),
        Mixdown.Carrying b m held → w.Balanced s (held + rest) → ∃ rest', c.before.Balanced s rest'
  | _, _, _, _, _, .here h, hs, _, held, rest, _, hw =>
      balanced h (hs _ List.mem_cons_self) (held + rest) hw
  | style, _, _, _, _, .later hf hp hm h, hs, _, held, rest, hb, hw => by
      obtain ⟨⟨x, ⟨d, _, hx⟩, hw'⟩, _⟩ :=
        Scene.moves_compile _ (hs _ List.mem_cons_self) _ _ _ (held + rest) (by rwa [zero_add]) hf
      obtain ⟨⟨x', hx', hw''⟩, _⟩ := Streams.moves_spaced _ hx _ _ _ (held + rest) hw' hp
      rw [← add_assoc] at hw''
      obtain ⟨⟨held', hb', hw'''⟩, _⟩ := Mixdown.moves_add style _ hb hx' _ _ _ rest hw'' hm
      exact balanced_parallel h (fun i hi => hs i (List.mem_cons_of_mem _ hi)) _ held' rest hb' hw'''

end

/-- The streams of every node that is visited carry what it denotes. -/
theorem denotes {root : Scene τ π} {c : Call τ π}
    (h : Visits root (.start s.frame s.sampleRate) c) (hs : root.Heard s) :
    ∃ d, Denotes s c.node d ∧ c.streams.Carry s.toReading c.after.graph d := by
  obtain ⟨rest, hw⟩ := h.balanced hs 0 (Workshop.balanced_start s)
  have hnode : c.node.Heard s := fun tag kind locator style hn =>
    hs tag kind locator style (hn.trans h.within)
  obtain ⟨⟨x, ⟨d, hd, hx⟩, hw'⟩, _⟩ :=
    Scene.moves_compile _ hnode _ _ _ rest (by rwa [zero_add]) h.made
  exact ⟨d, hd, hx.carry hw'⟩

end Visits

/-- The streams of a film carry what its scene denotes, on the screen. -/
theorem Film.denotes {root : Scene τ π} {film : Film τ π}
    (h : ofScene root s.frame s.sampleRate = .ok film) (hs : root.Heard s) :
    ∃ d, Denotes s root d ∧ (⟨film.video, film.audio⟩ : Streams).Carry s.toReading film.graph
      (s.paired (s.staged root.style s.frame.resolution d)) := by
  obtain ⟨st, w, d, out, -, rfl, hd, hout, hw⟩ := exists_run h hs
  rw [← add_zero out] at hw
  exact ⟨d, hd, (hout.carry hw).grows hw.toSound.finish.2.1⟩
end Montage
