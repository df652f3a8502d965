import Montage.Compile.Film
import Montage.Proofs.Compile.Books
import Montage.Proofs.Style.Recount

/-!
# Mirrored steps

What a compilation is put together from does the same in another kind of counts.

**Input.** A passage from one kind of counts to another, and steps of a compilation.

**Algorithm.** A step and its mirror are run from the same workshop in either kind of counts. A
filter is added alike whatever its counts are. Where the program asks whether counts are found, it goes
on with those that are; so canvases are told apart alike, and a step can only fail where its mirror
does not if a calculation stops the program.

**Results.**
* `Compile.Mirrors.bind`: steps in a row are mirrored by their mirrors in a row.
* `Compile.mirrors_counted`: what is found is found again.
* `Compile.mirrors_canvas`, `Compile.mirrors_source`: canvases and media are asked for alike.
-/

namespace Montage

variable {τ π ρ : Type}

/-! ### Filters -/

/-- The face with its counts passed on. -/
def Face.recount (f : π → ρ) (face : Face π) : Face ρ where
  pattern := face.pattern
  size := face.size.map f
  color := face.color
  borderColor := face.borderColor
  borderWidth := face.borderWidth.map f

/-- The filter with its counts passed on. -/
def Filter.recount (f : π → ρ) : Filter τ π → Filter τ ρ
  | color width height c rate => color (f width) (f height) c rate
  | silence sampleRate => silence sampleRate
  | rgba => rgba
  | scale width height => scale (width.map f) (height.map f)
  | squarePixels => squarePixels
  | frameRate fps => frameRate fps
  | overlay x y ending => overlay (f x) (f y) ending
  | trim kind stop => trim kind stop
  | seek start => seek start
  | resetTimestamps => resetTimestamps
  | loop kind => loop kind
  | holdBefore t c => holdBefore t c
  | holdAfter t c => holdAfter t c
  | holdLast => holdLast
  | delay t => delay t
  | padAfter t => padAfter t
  | padWhole t => padWhole t
  | padForever => padForever
  | concat segments kind => concat segments kind
  | pair => pair
  | mix inputs => mix inputs
  | mergeChannels => mergeChannels
  | downmix => downmix
  | normalize sampleRate => normalize sampleRate
  | volume percent => volume percent
  | drawText text x y face => drawText text (f x) (f y) (face.recount f)
  | split kind => split kind
  | sink kind => sink kind
  | makePalette => makePalette
  | usePalette => usePalette

namespace Filter

/-- The counts of a filter. -/
def counts : Filter τ π → List π
  | color width height _ _ => [width, height]
  | scale width height => width.toList ++ height.toList
  | overlay x y _ => [x, y]
  | drawText _ x y face => [x, y] ++ face.size.toList ++ face.borderWidth.toList
  | _ => []

theorem counts_recount (f : π → ρ) (filter : Filter τ π) :
    (filter.recount f).counts = filter.counts.map f := by
  cases filter <;> simp [recount, counts, Face.recount, Option.toList_map]

/-- All counts of a filter are found. -/
def IsFound [PixelCount π] (filter : Filter τ π) : Prop :=
  ∀ n ∈ filter.counts, PixelCount.IsFound n

theorem IsFound.plain [PixelCount π] {filter : Filter τ π} (h : filter.counts = []) :
    filter.IsFound := by
  rw [IsFound, h]
  exact List.forall_mem_nil _

theorem IsFound.overlay [PixelCount π] {x y : π} {ending : OverlayEnd} (hx : PixelCount.IsFound x)
    (hy : PixelCount.IsFound y) : (overlay x y ending : Filter τ π).IsFound :=
  List.forall_mem_cons.2 ⟨hx, List.forall_mem_singleton.2 hy⟩

end Filter

namespace Graph

variable {φ ψ : Type}

/-- A graph grows alike with other filters in the same places. -/
theorem push_map (h : φ → ψ) (g : Graph φ) (inputs : List Pad) (filter : φ)
    (kinds : List StreamKind) :
    (g.map h).push inputs (h filter) kinds = Prod.map id (map h) (g.push inputs filter kinds) := by
  simp only [push, map, Prod.map, List.map_append, List.map_cons, List.map_nil]
  rfl

end Graph

/-! ### Workshops -/

/-- The key with its counts passed on. -/
def CanvasKey.recount (f : π → ρ) (key : CanvasKey π) : CanvasKey ρ :=
  ⟨f key.width, f key.height, key.color⟩

namespace Workshop

/-- The workshop with its counts passed on. -/
def recount (f : π → ρ) (w : Workshop τ π) : Workshop τ ρ where
  frame := w.frame
  sampleRate := w.sampleRate
  graph := w.graph.map (Filter.recount f)
  canvases := w.canvases.map (Prod.map (CanvasKey.recount f) id)
  sources := w.sources

/-- The counts of all filters are found, and the sides of the canvases that can be used again. -/
structure IsFound [PixelCount π] (w : Workshop τ π) : Prop where
  filters : ∀ s ∈ w.graph.stages, s.filter.IsFound
  canvases : ∀ entry ∈ w.canvases,
    PixelCount.IsFound entry.1.width ∧ PixelCount.IsFound entry.1.height

/-- What is drained has no counts. -/
theorem isFound_drain [PixelCount π] (kind : StreamKind) (pads : List Pad) {g : Graph (Filter τ π)}
    (h : ∀ s ∈ g.stages, s.filter.IsFound) : ∀ s ∈ (drain kind g pads).stages, s.filter.IsFound := by
  induction pads generalizing g with
  | nil => exact h
  | cons p rest ih =>
      refine ih (List.forall_mem_append.2 ⟨h, ?_⟩)
      exact List.forall_mem_singleton.2 (.plain rfl)

theorem IsFound.finish [PixelCount π] {w : Workshop τ π} (h : w.IsFound) :
    ∀ s ∈ w.finish.stages, s.filter.IsFound :=
  isFound_drain .audio _ (isFound_drain .video _ h.filters)

theorem drain_recount (f : π → ρ) (kind : StreamKind) (pads : List Pad) (g : Graph (Filter τ π)) :
    drain kind (g.map (Filter.recount f)) pads = (drain kind g pads).map (Filter.recount f) := by
  induction pads generalizing g with
  | nil => rfl
  | cons p rest ih =>
      have hsink : (g.map (Filter.recount f)).sink p (.sink kind) =
          (g.sink p (.sink kind)).map (Filter.recount f) :=
        congrArg Prod.snd (g.push_map (Filter.recount f) [p] (.sink kind) [])
      simp only [drain, List.foldl_cons, hsink] at ih ⊢
      exact ih _

theorem finish_recount (f : π → ρ) (w : Workshop τ π) :
    (w.recount f).finish = w.finish.map (Filter.recount f) := by
  have hspares : (w.recount f).spareVideos = w.spareVideos := by
    simp only [spareVideos, recount, List.map_map]
    rfl
  rw [finish, finish, hspares, ← drain_recount, ← drain_recount]
  rfl

end Workshop

/-! ### Mirrored steps -/

/-- A failure that does not pass: a calculation stops the program on its way to a count, but not on
the way to the count that this one passes to. -/
def Failure.IsLost [PixelCount π] [PixelCount ρ] (f : π → ρ) (e : Failure) : Prop :=
  ∃ (n : π) (c : Calculation), PixelCount.mishap? n = some c ∧ PixelCount.mishap? (f n) ≠ some c ∧
    e = .mishap c

/-- No failure is lost where the same calculations stop a program. -/
theorem KeepsMishaps.not_isLost [PixelCount π] [PixelCount ρ] {f : π → ρ} (K : KeepsMishaps f)
    (e : Failure) : ¬e.IsLost f := by
  rintro ⟨n, c, hn, hne, -⟩
  exact hne ((K n).trans hn)

namespace Compile

section

variable [PixelCount π] [PixelCount ρ] {β γ β' γ' : Type} {f : π → ρ}

/-- A step has a mirror in other counts: run from a workshop whose counts are found, it answers the
same and leaves the same workshop behind, whose counts are found again. If it fails, so does its
mirror, unless the failure is lost. -/
def Mirrors (f : π → ρ) (pass : β → γ) (c : Compile τ π β) (c' : Compile τ ρ γ) : Prop :=
  ∀ w : Workshop τ π, w.IsFound →
    (∀ b w', c w = .ok (b, w') → w'.IsFound ∧ c' (w.recount f) = .ok (pass b, w'.recount f)) ∧
      ∀ e, c w = .error e → c' (w.recount f) = .error e ∨ e.IsLost f

namespace Mirrors

variable {pass : β → γ} {c : Compile τ π β} {c' : Compile τ ρ γ} {c'' : Compile τ ρ β}

theorem pure (pass : β → γ) (b : β) :
    Mirrors f pass (Pure.pure b : Compile τ π β) (Pure.pure (pass b)) := by
  intro w hw
  constructor
  · rintro _ _ ⟨⟩
    exact ⟨hw, rfl⟩
  · rintro _ ⟨⟩

theorem throw (pass : β → γ) (e : Failure) :
    Mirrors f pass (MonadExcept.throw e : Compile τ π β) (MonadExcept.throw e) := by
  intro w hw
  constructor
  · rintro _ _ ⟨⟩
  · rintro _ ⟨⟩
    exact Or.inl rfl

theorem bind {pass' : β' → γ'} {k : β → Compile τ π β'} {k' : γ → Compile τ ρ γ'}
    (h : Mirrors f pass c c') (hk : ∀ b, Mirrors f pass' (k b) (k' (pass b))) :
    Mirrors f pass' (c >>= k) (c' >>= k') := by
  intro w hw
  obtain ⟨hok, herror⟩ := h w hw
  have hrun : (c >>= k) w = c w >>= fun run => k run.1 run.2 := rfl
  have hrun' : (c' >>= k') (w.recount f) = c' (w.recount f) >>= fun run => k' run.1 run.2 := rfl
  rw [hrun, hrun']
  cases hc : c w with
  | error e =>
      refine ⟨nofun, ?_⟩
      rintro _ ⟨⟩
      rcases herror e hc with he | hlost
      · rw [he]
        exact Or.inl rfl
      · exact Or.inr hlost
  | ok run =>
      obtain ⟨hfound, hsame⟩ := hok run.1 run.2 hc
      rw [hsame]
      exact hk run.1 run.2 hfound

theorem map {δ : Type} (h : Mirrors f (id : β → β) c c'') (g : β → δ) :
    Mirrors f id (g <$> c) (g <$> c'') := by
  rw [map_eq_pure_bind, map_eq_pure_bind]
  exact h.bind fun b => pure id (g b)

theorem get_bind {k : Workshop τ π → Compile τ π β} {k' : Workshop τ ρ → Compile τ ρ γ}
    (hk : ∀ w : Workshop τ π, w.IsFound → Mirrors f pass (k w) (k' (w.recount f))) :
    Mirrors f pass (MonadState.get >>= k) (MonadState.get >>= k') :=
  fun w hw => hk w hw w hw

theorem put {w : Workshop τ π} (h : w.IsFound) :
    Mirrors f id (MonadStateOf.set w : Compile τ π PUnit) (MonadStateOf.set (w.recount f)) := by
  intro _ _
  constructor
  · rintro _ _ ⟨⟩
    exact ⟨h, rfl⟩
  · rintro _ ⟨⟩

theorem update {g : Workshop τ π → Workshop τ π} {g' : Workshop τ ρ → Workshop τ ρ}
    (hg : ∀ w, g' (w.recount f) = (g w).recount f)
    (hfound : ∀ w : Workshop τ π, w.IsFound → (g w).IsFound) :
    Mirrors f id (modify g : Compile τ π PUnit) (modify g') := by
  intro w hw
  constructor
  · rintro _ _ ⟨⟩
    exact ⟨hfound w hw, congrArg (fun w => Except.ok (PUnit.unit, w)) (hg w)⟩
  · rintro _ ⟨⟩

theorem ite {p q : Prop} [Decidable p] [Decidable q] {d : Compile τ π β} {d' : Compile τ ρ γ}
    (hpq : q ↔ p) (hc : Mirrors f pass c c') (hd : Mirrors f pass d d') :
    Mirrors f pass (if p then c else d) (if q then c' else d') := by
  simp only [hpq]
  split
  · exact hc
  · exact hd

theorem mapM {k : Pad → Compile τ π Pad} {k' : Pad → Compile τ ρ Pad}
    (hk : ∀ p, Mirrors f id (k p) (k' p)) (p : Option Pad) :
    Mirrors f id (p.mapM k) (p.mapM k') := by
  cases p with
  | none => exact pure id none
  | some p => exact (hk p).map some

/-- A graph changes alike, and the counts of its filters stay found. -/
theorem onGraph {α : Type} {g : Graph (Filter τ π) → α × Graph (Filter τ π)}
    {g' : Graph (Filter τ ρ) → α × Graph (Filter τ ρ)}
    (hg : ∀ graph, g' (graph.map (Filter.recount f)) =
      Prod.map id (Graph.map (Filter.recount f)) (g graph))
    (hfound : ∀ graph, (∀ s ∈ graph.stages, s.filter.IsFound) →
      ∀ s ∈ (g graph).2.stages, s.filter.IsFound) :
    Mirrors f id (Compile.onGraph g) (Compile.onGraph g') := by
  intro w hw
  constructor
  · rintro _ _ ⟨⟩
    refine ⟨⟨hfound w.graph hw.filters, hw.canvases⟩, ?_⟩
    simp only [Compile.onGraph, Workshop.recount, hg]
    rfl
  · rintro _ ⟨⟩

theorem join (kind : StreamKind) (inputs : List Pad) (filter : Filter τ π) (h : filter.IsFound) :
    Mirrors f id (Compile.join kind inputs filter)
      (Compile.join kind inputs (filter.recount f)) := by
  refine onGraph (fun graph => Prod.ext rfl ?_) fun graph hgraph => ?_
  · exact (congrArg Prod.snd (graph.push_map (Filter.recount f) inputs filter [kind]) :)
  · exact List.forall_mem_append.2 ⟨hgraph, List.forall_mem_singleton.2 h⟩

theorem apply (kind : StreamKind) (filter : Filter τ π) (h : filter.IsFound) (p : Pad) :
    Mirrors f id (Compile.apply kind filter p) (Compile.apply kind (filter.recount f) p) :=
  join kind [p] filter h

theorem fork (first second : StreamKind) (inputs : List Pad) (filter : Filter τ π)
    (h : filter.IsFound) :
    Mirrors f id (Compile.onGraph fun g => g.fork first second inputs filter)
      (Compile.onGraph fun g => g.fork first second inputs (filter.recount f)) := by
  refine onGraph (fun graph => Prod.ext rfl ?_) fun graph hgraph => ?_
  · exact (congrArg Prod.snd (graph.push_map (Filter.recount f) inputs filter [first, second]) :)
  · exact List.forall_mem_append.2 ⟨hgraph, List.forall_mem_singleton.2 h⟩

end Mirrors

/-! ### Canvases and media -/

section

variable (F : Passage.IsFaithful f)
include F

/-- The program goes on with counts that are found, and so does its mirror. -/
theorem mirrors_counted {pass : β → γ} {ns : List π} {c : Compile τ π β} {c' : Compile τ ρ γ}
    (h : (∀ n ∈ ns, PixelCount.IsFound n) → Mirrors f pass c c') :
    Mirrors f pass (counted ns >>= fun _ => c) (counted (ns.map f) >>= fun _ => c') := by
  intro w hw
  unfold counted
  cases hns : PixelCount.firstMishap? ns with
  | none =>
      have hfound := PixelCount.firstMishap?_eq_none.1 hns
      rw [PixelCount.firstMishap?_eq_none.2
        (List.forall_mem_map.2 fun n hn => F.found (hfound n hn))]
      exact h hfound w hw
  | some calculation =>
      refine ⟨nofun, ?_⟩
      rintro _ ⟨⟩
      rcases F.firstMishap?_map hns with hsame | ⟨n, hn, hne⟩
      · rw [hsame]
        exact Or.inl rfl
      · exact Or.inr ⟨n, calculation, hn, hne, rfl⟩

theorem recount_eq_iff {key key' : CanvasKey π}
    (h : PixelCount.IsFound key.width ∧ PixelCount.IsFound key.height)
    (h' : PixelCount.IsFound key'.width ∧ PixelCount.IsFound key'.height) :
    key.recount f = key'.recount f ↔ key = key' := by
  constructor
  · cases key
    cases key'
    simp only [CanvasKey.recount, CanvasKey.mk.injEq]
    exact fun ⟨hw, hh, hc⟩ => ⟨F.inj h.1 h'.1 hw, F.inj h.2 h'.2 hh, hc⟩
  · exact congrArg (CanvasKey.recount f)

theorem takeEntry_recount {key : CanvasKey π}
    (hk : PixelCount.IsFound key.width ∧ PixelCount.IsFound key.height)
    {entries : List (CanvasKey π × Pad)}
    (he : ∀ entry ∈ entries,
      PixelCount.IsFound entry.1.width ∧ PixelCount.IsFound entry.1.height) :
    takeEntry (· == key.recount f) (entries.map (Prod.map (CanvasKey.recount f) id)) =
      (takeEntry (· == key) entries).map
        (Prod.map id (List.map (Prod.map (CanvasKey.recount f) id))) := by
  induction entries with
  | nil => rfl
  | cons entry rest ih =>
      obtain ⟨hentry, hrest⟩ := List.forall_mem_cons.1 he
      have hsame : (entry.1.recount f == key.recount f) = (entry.1 == key) := by
        rw [Bool.eq_iff_iff, beq_iff_eq, beq_iff_eq, recount_eq_iff F hentry hk]
      rw [List.map_cons, takeEntry, takeEntry]
      simp only [Prod.map_fst, hsame, ih hrest]
      split
      · rfl
      · cases takeEntry (· == key) rest <;> rfl

theorem mirrors_canvasStream {key : CanvasKey π}
    (hk : PixelCount.IsFound key.width ∧ PixelCount.IsFound key.height) :
    Mirrors f id (canvasStream key : Compile τ π Pad) (canvasStream (key.recount f)) := by
  refine .get_bind fun w hw => ?_
  have hcanvases : (w.recount f).canvases = w.canvases.map (Prod.map (CanvasKey.recount f) id) :=
    rfl
  rw [hcanvases, takeEntry_recount F hk hw.canvases]
  cases hfound : takeEntry (· == key) w.canvases with
  | none =>
      have hcolor : (Filter.color key.width key.height key.color w.frame.fps).IsFound :=
        List.forall_mem_cons.2 ⟨hk.1, List.forall_mem_singleton.2 hk.2⟩
      refine Mirrors.bind (.join .video [] _ hcolor) fun generated => ?_
      exact .apply .video .rgba (.plain rfl) generated
  | some found =>
      obtain ⟨spare, others⟩ := found
      obtain ⟨_, -, hperm⟩ := takeEntry_eq_some hfound
      have hothers : ({ w with canvases := others } : Workshop τ π).IsFound :=
        ⟨hw.filters, fun entry he => hw.canvases entry (hperm.mem_iff.2 (List.mem_cons_of_mem _ he))⟩
      exact Mirrors.bind (.put hothers) fun _ => .pure id spare

/-- A canvas has a mirror. -/
theorem mirrors_canvas (tag : Tag) (width height : Length π) (color : Option Color) :
    Mirrors f id (canvas tag width height color : Compile τ π Pad)
      (canvas tag (width.recount f) (height.recount f) color) := by
  have hsides : [width.recount f, height.recount f].filterMap Length.pixels? =
      ([width, height].filterMap Length.pixels?).map f := by
    cases width <;> cases height <;> rfl
  have hconcrete : ∀ (property : Dimension) (l : Length π),
      (∃ n, l.pixels? = some n ∧ concrete tag property l = (pure n : Compile τ π π) ∧
        concrete tag property (l.recount f) = (pure (f n) : Compile τ ρ ρ)) ∨
      (concrete tag property l = (throw (.unresolved tag property) : Compile τ π π) ∧
        concrete tag property (l.recount f) =
          (throw (.unresolved tag property) : Compile τ ρ ρ)) := by
    intro property l
    cases l with
    | pixel n => exact Or.inl ⟨n, rfl, rfl, rfl⟩
    | _ => exact Or.inr ⟨rfl, rfl⟩
  unfold canvas
  rw [hsides]
  refine mirrors_counted F fun hfound => ?_
  rcases hconcrete .width width with ⟨w, hw, hc, hc'⟩ | ⟨hc, hc'⟩
  · rcases hconcrete .height height with ⟨h, hh, hd, hd'⟩ | ⟨hd, hd'⟩
    · have hkey : PixelCount.IsFound w ∧ PixelCount.IsFound h := by
        constructor
        · exact hfound w (List.mem_filterMap.2 ⟨width, List.mem_cons_self, hw⟩)
        · exact hfound h (List.mem_filterMap.2 ⟨height, by simp, hh⟩)
      rw [hc, hc', hd, hd']
      simp only [pure_bind]
      refine .ite ?_ ?_ ?_
      · rw [← F.zero, F.le_iff, F.le_iff]
      · rw [F.toInt, F.toInt]
        exact .throw id _
      · refine .bind (mirrors_canvasStream F hkey) fun stream => ?_
        refine .bind (.fork .video .video [stream] (.split .video) (.plain rfl)) fun pads => ?_
        refine .bind (.update (fun _ => rfl) fun w hw => ?_) fun _ => .pure id _
        exact ⟨hw.filters, List.forall_mem_cons.2 ⟨hkey, hw.canvases⟩⟩
    · rw [hc, hc', hd, hd']
      exact .throw id _
  · rw [hc, hc']
    exact .throw id _

end

section

variable [Timescale τ]

theorem mirrors_spares (key : SourceKey) (wantAudio : Bool) :
    Mirrors f id (spares key wantAudio : Compile τ π Spares) (spares key wantAudio) := by
  refine .get_bind fun w hw => ?_
  have hsources : (w.recount f).sources = w.sources := rfl
  rw [hsources]
  cases takeEntry key.same w.sources with
  | none => exact .bind (.onGraph (fun _ => rfl) fun _ h => h) fun _ => .pure id _
  | some found =>
      have hothers : ({ w with sources := found.2 } : Workshop τ π).IsFound :=
        ⟨hw.filters, hw.canvases⟩
      exact .bind (.put hothers) fun _ => .pure id found.1

omit [Timescale τ] in
theorem mirrors_handOut (kind : StreamKind) (wanted : Bool) (spare : Option Pad) :
    Mirrors f id (handOut kind wanted spare : Compile τ π (Option Pad × Option Pad))
      (handOut kind wanted spare) := by
  unfold handOut
  split
  · exact .bind (.fork kind kind _ (.split kind) (.plain rfl)) fun _ => .pure id _
  · exact .pure id _

theorem mirrors_source (path : Path) (kind : MediaKind) (wantVideo wantAudio : Bool) :
    Mirrors f id
      (source path kind wantVideo wantAudio : Compile τ π (Option Pad × Option Pad))
      (source path kind wantVideo wantAudio) := by
  refine .bind (mirrors_spares _ wantAudio) fun spares => ?_
  refine .bind (mirrors_handOut .video wantVideo _) fun video => ?_
  refine .bind (mirrors_handOut .audio wantAudio _) fun audio => ?_
  refine .bind (.update (fun _ => rfl) fun w hw => ?_) fun _ => .pure id _
  exact ⟨hw.filters, hw.canvases⟩

end
end
end Compile

/-! ### Films -/

namespace Film

/-- The film with its counts passed on. -/
def recount (f : π → ρ) (film : Film τ π) : Film τ ρ where
  graph := film.graph.map (Filter.recount f)
  video := film.video
  audio := film.audio
  frame := film.frame
  duration := film.duration

/-- The counts of all filters of a film. -/
def counts (film : Film τ π) : List π :=
  film.graph.stages.flatMap fun s => s.filter.counts

theorem counts_recount (f : π → ρ) (film : Film τ π) :
    (film.recount f).counts = film.counts.map f := by
  simp only [counts, recount, Graph.map, List.flatMap_map, List.map_flatMap, Filter.counts_recount]

end Film

end Montage
