import Montage.Compile.Workshop
import Montage.Proofs.Graph.Value

/-!
# The books of a workshop

While a document is compiled, every pad is either read, kept as a spare, or in the hands of the code
that compiles. The books say so, and what each of these pads carries.

**Input.** A studio: the frame, the sample rate, and a reading of streams under which a split is
lossless and paths with the same components name the same media.

**Algorithm.** A step of a compilation takes pads out of its hands and gives others; what else is
held stays as it is (`Compile.Moves`).

**Results.** `Compile.Moves.bind` puts steps together; one statement for each request of a workshop
says what it takes and gives, up to `Compile.moves_canvas` and `Compile.moves_source`.
-/

namespace Montage

theorem SourceKey.same_comm (a b : SourceKey) : a.same b = b.same a := by
  simp only [SourceKey.same, Path.same, Bool.beq_comm]

/-- What is constant in a compilation, how its streams are read, and which media may be heard:
`hears key b` allows that an input for `key` was added with its sound (`b = true`) or without. -/
structure Studio (α τ π : Type) [Timescale τ] extends Reading α τ π where
  frame : Frame τ
  sampleRate : Nat
  hears : SourceKey → Bool → Prop
  filter_split : ∀ kind k a, filter (.split kind) [a] k = a
  input_same : ∀ options p q kind, p.same q = true → input ⟨options, p⟩ kind = input ⟨options, q⟩ kind
  hears_same : ∀ a b h, a.same b = true → hears a h → hears b h

namespace Studio

variable {α τ π : Type} [Timescale τ]

/-- What a stream of a file carries. -/
def stream (s : Studio α τ π) (key : SourceKey) (kind : StreamKind) : α :=
  s.input ⟨Compile.inputOptions s.frame.fps key.kind, key.path⟩ kind

/-- What a canvas carries. -/
def canvas (s : Studio α τ π) (key : CanvasKey π) : α :=
  s.apply .rgba .video (s.filter (.color key.width key.height key.color s.frame.fps) [] .video)

theorem stream_same (s : Studio α τ π) {a b : SourceKey} (h : a.same b = true) (kind : StreamKind) :
    s.stream a kind = s.stream b kind := by
  obtain ⟨hp, hk⟩ := Bool.and_eq_true_iff.1 h
  have hk' : a.kind = b.kind := by simpa using hk
  rw [stream, stream, hk', s.input_same _ _ _ kind hp]

end Studio

namespace Spares

/-- The spare streams of a file. -/
def pads (sp : Spares) : List Pad :=
  sp.video.toList ++ sp.audio.toList

/-- What a workshop keeps of a file: its video if it has one, its sound if that may be heard. -/
structure Fits {α τ π : Type} [Timescale τ] (sp : Spares) (s : Studio α τ π)
    (g : Graph (Filter τ π)) (key : SourceKey) : Prop where
  video_isSome : sp.video.isSome = key.kind.hasVideo
  hears_audio : s.hears key sp.audio.isSome
  video : ∀ p ∈ sp.video, g.value s.toReading p = some (s.stream key .video)
  audio : ∀ p ∈ sp.audio, g.value s.toReading p = some (s.stream key .audio)

end Spares

namespace Workshop

variable {α τ π : Type}

/-- All pads that are kept for another request. -/
def sparePads (w : Workshop τ π) : Multiset Pad :=
  ↑(w.canvases.map Prod.snd) + ↑(w.sources.flatMap fun e => e.2.pads)

theorem flatMap_pads (l : List (SourceKey × Spares)) :
    (↑(l.flatMap fun e => e.2.pads) : Multiset Pad) =
      ↑(l.filterMap fun e => e.2.video) + ↑(l.filterMap fun e => e.2.audio) := by
  induction l with
  | nil => rfl
  | cons e l ih =>
      rw [List.flatMap_cons, ← Multiset.coe_add, ih]
      rcases e with ⟨key, video, audio⟩
      cases video <;> cases audio <;> simp [Spares.pads, ← Multiset.cons_coe, Multiset.cons_swap]

theorem sparePads_eq (w : Workshop τ π) :
    w.sparePads = ↑w.spareVideos + ↑w.spareAudios := by
  rw [sparePads, flatMap_pads, spareVideos, spareAudios, ← Multiset.coe_add, add_assoc]

variable [Timescale τ]

/-- The books of a workshop in which the given pads are at hand. -/
structure Sound (s : Studio α τ π) (w : Workshop τ π) (free : Multiset Pad) : Prop where
  frame : w.frame = s.frame
  sampleRate : w.sampleRate = s.sampleRate
  linear : w.graph.Linear (free + w.sparePads)
  canvas_outputs : ∀ e ∈ w.canvases, e.2.IsOutput
  canvases : ∀ e ∈ w.canvases, w.graph.value s.toReading e.2 = some (s.canvas e.1)
  sources : ∀ e ∈ w.sources, e.2.Fits s w.graph e.1
  inputs : ∀ i ∈ w.graph.inputs, ∃ kind, i.options = Compile.inputOptions s.frame.fps kind

/-- The books of a workshop in which outputs of filters are held, each with what it carries. -/
structure Balanced (s : Studio α τ π) (w : Workshop τ π) (held : Multiset (Pad × α)) : Prop
    extends w.Sound s (held.map Prod.fst) where
  outputs : ∀ x ∈ held, x.1.IsOutput
  values : ∀ x ∈ held, w.graph.value s.toReading x.1 = some x.2

theorem balanced_start (s : Studio α τ π) :
    (start s.frame s.sampleRate : Workshop τ π).Balanced s 0 where
  frame := rfl
  sampleRate := rfl
  linear := Graph.linear_empty
  outputs := by simp
  values := by simp
  canvas_outputs := by simp [start]
  canvases := by simp [start]
  sources := by simp [start]
  inputs := by simp [start, Graph.empty]

end Workshop

theorem takeEntry_eq_some {κ β : Type} {fits : κ → Bool} {l others : List (κ × β)} {b : β}
    (h : takeEntry fits l = some (b, others)) :
    ∃ a, fits a = true ∧ l.Perm ((a, b) :: others) := by
  induction l generalizing others with
  | nil => simp [takeEntry] at h
  | cons e l ih =>
      rcases e with ⟨a, c⟩
      by_cases hf : fits a = true
      · simp only [takeEntry, hf, if_true, Option.some.injEq, Prod.mk.injEq] at h
        obtain ⟨rfl, rfl⟩ := h
        exact ⟨a, hf, List.Perm.refl _⟩
      · simp only [takeEntry, hf, Bool.false_eq_true, if_false, Option.map_eq_some_iff] at h
        obtain ⟨⟨found, rest⟩, hr, he⟩ := h
        obtain ⟨rfl, rfl⟩ := Prod.mk.inj he
        obtain ⟨a', hf', hp⟩ := ih hr
        exact ⟨a', hf', (hp.cons _).trans (List.Perm.swap _ _ _)⟩

/-- What is found of the result of a computation is found of a result that there is. -/
theorem exists_ok_of_map {ε β γ : Type} {e : Except ε β} {f : β → γ} {c : γ}
    (h : e.toOption.map f = some c) : ∃ b, e = .ok b ∧ f b = c := by
  cases e with
  | error e => cases h
  | ok b => exact ⟨b, rfl, Option.some.inj h⟩

namespace Compile

variable {α τ π β γ : Type}

theorem bind_eq_ok {c : Compile τ π β} {f : β → Compile τ π γ} {w w'' : Workshop τ π} {b : γ} :
    (c >>= f) w = .ok (b, w'') ↔ ∃ a w', c w = .ok (a, w') ∧ f a w' = .ok (b, w'') := by
  rcases hc : c w with e | ⟨a, w'⟩
  · simp [Bind.bind, StateT.bind, Except.bind, hc]
  · simp [Bind.bind, StateT.bind, Except.bind, hc]

theorem pure_eq_ok {a b : β} {w w' : Workshop τ π} :
    (pure a : Compile τ π β) w = .ok (b, w') ↔ b = a ∧ w' = w := by
  constructor
  · rintro ⟨⟩
    exact ⟨rfl, rfl⟩
  · rintro ⟨rfl, rfl⟩
    rfl

theorem get_bind {f : Workshop τ π → Compile τ π β} {w : Workshop τ π} :
    ((get : Compile τ π (Workshop τ π)) >>= f) w = f w w :=
  rfl

/-- Counts that are found change nothing, and others stop the program. -/
theorem counted_bind_eq_ok [PixelCount π] {ns : List π} {c : Compile τ π β} {w : Workshop τ π}
    {run : β × Workshop τ π} :
    (counted ns >>= fun _ => c) w = .ok run ↔ (∀ n ∈ ns, PixelCount.IsFound n) ∧ c w = .ok run := by
  rw [← PixelCount.firstMishap?_eq_none]
  unfold counted
  cases PixelCount.firstMishap? ns with
  | none => exact ⟨fun h => ⟨rfl, h⟩, fun h => h.2⟩
  | some calculation => exact ⟨nofun, nofun⟩

variable [Timescale τ]

/-- A step takes pads out of the hands of the code that compiles and gives it others, whatever else
is held; the graph only grows. -/
def Moves (s : Studio α τ π) (c : Compile τ π β) (taken : Multiset (Pad × α))
    (given : β → Multiset (Pad × α) → Prop) : Prop :=
  ∀ w w' b rest, w.Balanced s (taken + rest) → c w = .ok (b, w') →
    (∃ out, given b out ∧ w'.Balanced s (out + rest)) ∧ w.graph.Grows s.toReading w'.graph

namespace Moves

variable {s : Studio α τ π} {c : Compile τ π β} {taken : Multiset (Pad × α)}
  {given : β → Multiset (Pad × α) → Prop}

theorem mono {given' : β → Multiset (Pad × α) → Prop} (h : Moves s c taken given)
    (hg : ∀ b out, given b out → given' b out) : Moves s c taken given' := by
  intro w w' b rest hw hc
  obtain ⟨⟨out, ho, hb⟩, hgrow⟩ := h w w' b rest hw hc
  exact ⟨⟨out, hg b out ho, hb⟩, hgrow⟩

theorem pure {b : β} (h : given b taken) : Moves s (Pure.pure b) taken given := by
  intro w w' b' rest hw hc
  obtain ⟨rfl, rfl⟩ := pure_eq_ok.1 hc
  exact ⟨⟨taken, h, hw⟩, .refl _ _⟩

theorem throw (f : Failure) : Moves s (MonadExcept.throw f : Compile τ π β) taken given := by
  intro w w' b rest _ hc
  cases hc

/-- Steps one after the other. The second may take what the first gives and what was left. -/
theorem bind {f : β → Compile τ π γ} {first l : Multiset (Pad × α)}
    {given' : γ → Multiset (Pad × α) → Prop} (h : Moves s c first given)
    (ht : taken = first + l) (hf : ∀ b out, given b out → Moves s (f b) (out + l) given') :
    Moves s (c >>= f) taken given' := by
  intro w w'' b' rest hw hc
  subst ht
  rw [add_assoc] at hw
  obtain ⟨b, w', hr, hc'⟩ := bind_eq_ok.1 hc
  obtain ⟨⟨out, ho, hb⟩, hgrow⟩ := h w w' b (l + rest) hw hr
  rw [← add_assoc] at hb
  obtain ⟨hout, hgrow'⟩ := hf b out ho w' w'' b' rest hb hc'
  exact ⟨hout, hgrow.trans hgrow'⟩

/-- A step that takes nothing comes first. -/
theorem bind_zero {f : β → Compile τ π γ} {given' : γ → Multiset (Pad × α) → Prop}
    (h : Moves s c 0 given) (hf : ∀ b out, given b out → Moves s (f b) (out + taken) given') :
    Moves s (c >>= f) taken given' :=
  bind h (zero_add taken).symm hf

/-- A step that takes everything comes first. -/
theorem bind_all {f : β → Compile τ π γ} {given' : γ → Multiset (Pad × α) → Prop}
    (h : Moves s c taken given) (hf : ∀ b out, given b out → Moves s (f b) out given') :
    Moves s (c >>= f) taken given' := by
  refine bind h (add_zero taken).symm ?_
  intro b out ho
  rw [add_zero]
  exact hf b out ho

/-- A step comes after counts that are found. -/
theorem after_counted [PixelCount π] {ns : List π} (h : Moves s c taken given) :
    Moves s (counted ns >>= fun _ => c) taken given :=
  fun w w' b rest hw hc => h w w' b rest hw (counted_bind_eq_ok.1 hc).2

/-- The answer of a step is changed. -/
theorem map {f : β → γ} {given' : γ → Multiset (Pad × α) → Prop} (h : Moves s c taken given)
    (hf : ∀ b out, given b out → given' (f b) out) : Moves s (f <$> c) taken given' := by
  rw [map_eq_pure_bind]
  exact bind_all h fun b out ho => pure (hf b out ho)

/-- The frame and the sample rate are those of the studio. -/
theorem get_bind {f : Workshop τ π → Compile τ π γ} {given' : γ → Multiset (Pad × α) → Prop}
    (hf : ∀ w : Workshop τ π, w.frame = s.frame → w.sampleRate = s.sampleRate →
      Moves s (f w) taken given') :
    Moves s (MonadState.get >>= f) taken given' := by
  intro w w' b rest hw hc
  exact hf w hw.frame hw.sampleRate w w' b rest hw hc

/-- Steps from an empty workshop: nothing is held but what they give. -/
theorem from_start (h : Moves s c 0 given) {b : β} {w : Workshop τ π}
    (hc : c (.start s.frame s.sampleRate) = .ok (b, w)) : ∃ out, given b out ∧ w.Balanced s out := by
  obtain ⟨⟨out, ho, hw⟩, _⟩ := h _ w b 0 (by simpa using Workshop.balanced_start s) hc
  rw [add_zero] at hw
  exact ⟨out, ho, hw⟩

end Moves

/-- A pad is given that carries `a`. -/
def Carrying (a : α) (p : Pad) (out : Multiset (Pad × α)) : Prop :=
  out = {(p, a)}

/-- Two pads are given that carry `a` and `b`. -/
def CarryingTwo (a b : α) (p : Pad × Pad) (out : Multiset (Pad × α)) : Prop :=
  out = {(p.1, a)} + {(p.2, b)}

/-- A pad that carries `a` is given, or none if there is no `a`. -/
def CarryingOption (a : Option α) (p : Option Pad) (out : Multiset (Pad × α)) : Prop :=
  ∃ x : Option (Pad × α), p = x.map Prod.fst ∧ a = x.map Prod.snd ∧ out = ↑x.toList

end Compile
end Montage
