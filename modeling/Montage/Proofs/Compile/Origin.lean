import Montage.Proofs.Compile.Growth

/-!
# Requests of a workshop

What is asked of a workshop, and where the streams that it hands out come from.

**Input.** Requests for canvases and for the streams of files, in any order.

**Algorithm.** A canvas or a file counts as new if its key was not asked for before. A stream is
followed back through the splits that it comes from.

**Results.**
* `Request.canvases_concat`, `Request.files_concat`: what one more request adds to what was asked for.
* `Compile.handOut_eq_ok`: handing out a stream adds splits only, and both halves come from it.
-/

namespace Montage

theorem eraseDupsBy_concat {α : Type} (same : α → α → Bool) (l : List α) (a : α) :
    (l ++ [a]).eraseDupsBy same =
      if (l.eraseDupsBy same).any (same a) then l.eraseDupsBy same
      else l.eraseDupsBy same ++ [a] := by
  have hloop : ∀ seen, List.eraseDupsBy.loop same (l ++ [a]) seen =
      if (List.eraseDupsBy.loop same l seen).any (same a) then List.eraseDupsBy.loop same l seen
      else List.eraseDupsBy.loop same l seen ++ [a] := by
    induction l with
    | nil =>
        intro seen
        simp only [List.nil_append, List.eraseDupsBy.loop, List.any_reverse]
        split <;> simp_all
    | cons b l ih =>
        intro seen
        simp only [List.cons_append, List.eraseDupsBy.loop]
        rcases Bool.eq_false_or_eq_true (seen.any (same b)) with hb | hb
        · simpa only [hb] using ih seen
        · simpa only [hb] using ih (b :: seen)
  exact hloop []

theorem takeEntry_eq_none {κ β : Type} {fits : κ → Bool} {l : List (κ × β)}
    (h : takeEntry fits l = none) : ∀ e ∈ l, fits e.1 = false := by
  induction l with
  | nil => simp
  | cons e l ih =>
      intro e' he'
      rw [takeEntry] at h
      split at h
      · cases h
      · next hf =>
          rcases List.mem_cons.1 he' with rfl | he'
          · exact Bool.eq_false_iff.2 hf
          · exact ih (Option.map_eq_none_iff.1 h) e' he'

namespace SourceKey

/-- What keys of the same file have in common. -/
def identity (key : SourceKey) : List String × MediaKind :=
  (key.path.components, key.kind)

/-- The input that a file is read from. -/
def input {τ : Type} [Timescale τ] (fps : τ) (key : SourceKey) : Input :=
  ⟨Compile.inputOptions fps key.kind, key.path⟩

theorem same_iff {a b : SourceKey} : a.same b = true ↔ a.identity = b.identity := by
  simp [same, identity, Path.same, Prod.ext_iff]

end SourceKey

variable {τ π : Type}

namespace Filter

/-- Whether a filter splits a stream or drains it. -/
def isPlumbing : Filter τ π → Bool
  | split _ => true
  | sink _ => true
  | _ => false

/-- The filters that make a canvas. -/
def ground (fps : τ) (key : CanvasKey π) : List (Filter τ π) :=
  [color key.width key.height key.color fps, rgba]

end Filter

namespace Graph

/-- The filters that neither split nor drain a stream, in order. -/
def makers (g : Graph (Filter τ π)) : List (Filter τ π) :=
  (g.stages.map Stage.filter).filter fun f => !f.isPlumbing

/-- A pad comes from another one through splits only. -/
inductive SplitFrom (g : Graph (Filter τ π)) (origin : Pad) : Pad → Prop
  | self : SplitFrom g origin origin
  | half {kind : StreamKind} {p q a b : Pad} (h : SplitFrom g origin p)
      (hs : ⟨[p], .split kind, [a, b]⟩ ∈ g.stages) (hq : q = a ∨ q = b) : SplitFrom g origin q

/-- A pad comes from the canvas of a key, which is generated and brought to one format. -/
def FromCanvas (g : Graph (Filter τ π)) (fps : τ) (key : CanvasKey π) (p : Pad) : Prop :=
  ∃ generated formatted,
    ⟨[], .color key.width key.height key.color fps, [generated]⟩ ∈ g.stages ∧
      ⟨[generated], .rgba, [formatted]⟩ ∈ g.stages ∧ g.SplitFrom formatted p

/-- A pad comes from a stream of the input of a key, among the files that are inputs. -/
def FromFile (g : Graph (Filter τ π)) (files : List SourceKey) (key : SourceKey)
    (kind : StreamKind) (p : Pad) : Prop :=
  ∃ i file, files[i]? = some file ∧ file.same key = true ∧ g.SplitFrom (.input i kind) p

variable {g g' : Graph (Filter τ π)}

theorem SplitFrom.mono (hg : g.stages ⊆ g'.stages) {origin p : Pad} (h : g.SplitFrom origin p) :
    g'.SplitFrom origin p := by
  induction h with
  | self => exact .self
  | half _ hs hq ih => exact .half ih (hg hs) hq

theorem FromCanvas.mono (hg : g.stages ⊆ g'.stages) {fps : τ} {key : CanvasKey π} {p : Pad}
    (h : g.FromCanvas fps key p) : g'.FromCanvas fps key p := by
  obtain ⟨generated, formatted, hgen, hfmt, hp⟩ := h
  exact ⟨generated, formatted, hg hgen, hg hfmt, hp.mono hg⟩

theorem FromFile.mono (hg : g.stages ⊆ g'.stages) {files files' : List SourceKey}
    (hf : files <+: files') {key : SourceKey} {kind : StreamKind} {p : Pad}
    (h : g.FromFile files key kind p) : g'.FromFile files' key kind p := by
  obtain ⟨i, file, hi, hs, hp⟩ := h
  obtain ⟨more, rfl⟩ := hf
  have hlt := (List.getElem?_eq_some_iff.1 hi).1
  exact ⟨i, file, by rw [List.getElem?_append_left hlt, hi], hs, hp.mono hg⟩

theorem SplitFrom.trans {origin p q : Pad} (h : g.SplitFrom origin p) (h' : g.SplitFrom p q) :
    g.SplitFrom origin q := by
  induction h' with
  | self => exact h
  | half _ hs hq ih => exact .half ih hs hq

theorem FromCanvas.split {fps : τ} {key : CanvasKey π} {p q : Pad} (h : g.FromCanvas fps key p)
    (h' : g.SplitFrom p q) : g.FromCanvas fps key q := by
  obtain ⟨generated, formatted, hgen, hfmt, hp⟩ := h
  exact ⟨generated, formatted, hgen, hfmt, hp.trans h'⟩

theorem FromFile.split {files : List SourceKey} {key : SourceKey} {kind : StreamKind} {p q : Pad}
    (h : g.FromFile files key kind p) (h' : g.SplitFrom p q) : g.FromFile files key kind q := by
  obtain ⟨i, file, hi, hs, hp⟩ := h
  exact ⟨i, file, hi, hs, hp.trans h'⟩

theorem FromFile.same {files : List SourceKey} {a b : SourceKey} {kind : StreamKind} {p : Pad}
    (h : g.FromFile files a kind p) (hs : a.same b = true) : g.FromFile files b kind p := by
  obtain ⟨i, file, hi, hf, hp⟩ := h
  rw [SourceKey.same_iff] at hf hs
  exact ⟨i, file, hi, SourceKey.same_iff.2 (hf.trans hs), hp⟩

/-- Filters are added to a graph, and no inputs. -/
structure ExtendsBy (g g' : Graph (Filter τ π)) (more : List (Stage (Filter τ π))) : Prop where
  stages : g'.stages = g.stages ++ more
  inputs : g'.inputs = g.inputs

namespace ExtendsBy

variable {more : List (Stage (Filter τ π))}

theorem subset (h : g.ExtendsBy g' more) : g.stages ⊆ g'.stages := by
  rw [h.stages]
  exact List.subset_append_left _ _

theorem added (h : g.ExtendsBy g' more) : more ⊆ g'.stages := by
  rw [h.stages]
  exact List.subset_append_right _ _

theorem refl (g : Graph (Filter τ π)) : g.ExtendsBy g [] :=
  ⟨(List.append_nil _).symm, rfl⟩

theorem trans {g'' : Graph (Filter τ π)} {more' : List (Stage (Filter τ π))}
    (h : g.ExtendsBy g' more) (h' : g'.ExtendsBy g'' more') : g.ExtendsBy g'' (more ++ more') :=
  ⟨by rw [h'.stages, h.stages, List.append_assoc], h'.inputs.trans h.inputs⟩

theorem makers (h : g.ExtendsBy g' more) :
    g'.makers = g.makers ++ (more.map Stage.filter).filter fun f => !f.isPlumbing := by
  rw [Graph.makers, h.stages, List.map_append, List.filter_append, Graph.makers]

end ExtendsBy

end Graph

/-! ### Requests -/

/-- A request of a workshop. -/
inductive Request (π : Type) where
  | canvas (tag : Tag) (width height : Length π) (color : Option Color)
  | source (path : Path) (kind : MediaKind) (wantVideo wantAudio : Bool)

namespace Request

/-- The key of the canvas that is asked for. -/
def canvasKey? : Request π → Option (CanvasKey π)
  | canvas _ width height color => do
      let w ← width.pixels?
      let h ← height.pixels?
      some ⟨w, h, Color.orTransparent color⟩
  | source .. => none

/-- The key of the file that is asked for. -/
def sourceKey? : Request π → Option SourceKey
  | canvas .. => none
  | source path kind _ _ => some ⟨path, kind⟩

/-- Whether the sound of a file is asked for. -/
def hears (key : SourceKey) : Request π → Bool
  | canvas .. => false
  | source path kind _ wantAudio => key.same ⟨path, kind⟩ && wantAudio

variable [PixelCount π]

/-- The canvases that are asked for, in order of their first request. -/
def canvases (requests : List (Request π)) : List (CanvasKey π) :=
  (requests.filterMap canvasKey?).eraseDups

/-- The files that are asked for, in order of their first request. -/
def files (requests : List (Request π)) : List SourceKey :=
  (requests.filterMap sourceKey?).eraseDupsBy SourceKey.same

variable [Timescale τ]

/-- Serves a request; the answer is the streams that are handed out. -/
def serve : Request π → Compile τ π Streams
  | canvas tag width height color => do
      let video ← Compile.canvas tag width height color
      pure ⟨some video, none⟩
  | source path kind wantVideo wantAudio => do
      let (video, audio) ← Compile.source path kind wantVideo wantAudio
      pure ⟨video, audio⟩

/-- Serves requests in order. -/
def serveAll : List (Request π) → Compile τ π (List Streams)
  | [] => pure []
  | r :: rest => do
      let first ← r.serve
      let others ← serveAll rest
      pure (first :: others)

/-- What is handed out for a request: a canvas, or the streams of a file that are wanted and there.
They come from the canvas or the file that was asked for. -/
def Answered (g : Graph (Filter τ π)) (fps : τ) (files : List SourceKey) :
    Request π → Streams → Prop
  | canvas tag width height color, st => ∃ key p,
      (canvas tag width height color).canvasKey? = some key ∧ st = ⟨some p, none⟩ ∧
        g.FromCanvas fps key p
  | source path kind wantVideo wantAudio, st =>
      st.video.isSome = (wantVideo && kind.hasVideo) ∧ st.audio.isSome = wantAudio ∧
        (∀ p ∈ st.video, g.FromFile files ⟨path, kind⟩ .video p) ∧
        ∀ p ∈ st.audio, g.FromFile files ⟨path, kind⟩ .audio p

omit [Timescale τ] [PixelCount π] in
theorem Answered.mono {g g' : Graph (Filter τ π)} {fps : τ} {files files' : List SourceKey}
    {r : Request π} {st : Streams} (h : r.Answered g fps files st) (hg : g.stages ⊆ g'.stages)
    (hf : files <+: files') : r.Answered g' fps files' st := by
  cases r with
  | canvas =>
      obtain ⟨key, p, hk, hst, hp⟩ := h
      exact ⟨key, p, hk, hst, hp.mono hg⟩
  | source =>
      obtain ⟨hv, ha, hvideo, haudio⟩ := h
      exact ⟨hv, ha, fun p hp => (hvideo p hp).mono hg hf, fun p hp => (haudio p hp).mono hg hf⟩

theorem adds_serve (r : Request π) : Compile.Adds (r.serve : Compile τ π Streams) := by
  cases r with
  | canvas tag width height color =>
      exact .bind (Compile.adds_canvas tag width height color) fun video => .pure _
  | source path kind wantVideo wantAudio =>
      exact .bind (Compile.adds_source path kind wantVideo wantAudio) fun streams => .pure _

theorem adds_serveAll : ∀ requests : List (Request π),
    Compile.Adds (serveAll requests : Compile τ π (List Streams))
  | [] => .pure []
  | r :: rest => .bind (adds_serve r) fun _ => .bind (adds_serveAll rest) fun _ => .pure _

/-- Two requests do not differ in whether the sound of one file is wanted. -/
def Agrees : Request π → Request π → Prop
  | source path kind _ wantAudio, source path' kind' _ wantAudio' =>
      (⟨path, kind⟩ : SourceKey).same ⟨path', kind'⟩ = true → wantAudio = wantAudio'
  | _, _ => True

/-- Whether the sound of a file is asked for by some request. -/
def heard (requests : List (Request π)) (key : SourceKey) : Bool :=
  requests.any (hears key)

/-- The sound of a file is wanted if it is wanted at all. -/
def Heeds (heard : SourceKey → Bool) : Request π → Prop
  | canvas .. => True
  | source path kind _ wantAudio => heard ⟨path, kind⟩ = wantAudio

variable {requests : List (Request π)}

omit [PixelCount π] in
theorem heard_same {a b : SourceKey} (h : a.same b = true) :
    heard requests a = heard requests b := by
  rw [SourceKey.same_iff] at h
  have hears_eq : ∀ r : Request π, hears a r = hears b r := by
    intro r
    cases r with
    | canvas => rfl
    | source path kind wantVideo wantAudio =>
        rw [hears, hears, Bool.eq_iff_iff, Bool.and_eq_true, Bool.and_eq_true, SourceKey.same_iff,
          SourceKey.same_iff, h]
  rw [heard, heard, funext hears_eq]

omit [PixelCount π] in
theorem heeds_of_agrees (h : ∀ r ∈ requests, ∀ r' ∈ requests, r.Agrees r') {r : Request π}
    (hr : r ∈ requests) : r.Heeds (heard requests) := by
  cases r with
  | canvas => trivial
  | source path kind wantVideo wantAudio =>
      rw [Heeds, Bool.eq_iff_iff, heard, List.any_eq_true]
      constructor
      · rintro ⟨_ | ⟨path', kind', wantVideo', wantAudio'⟩, hr', hh⟩
        · cases hh
        · obtain ⟨hs, ha⟩ := Bool.and_eq_true_iff.1 hh
          exact (h _ hr _ hr' hs).trans ha
      · intro ha
        exact ⟨_, hr, by simp [hears, ha, SourceKey.same_iff]⟩

/-- A canvas is one more if it was not asked for before. -/
theorem canvases_concat (requests : List (Request π)) {r : Request π} {key : CanvasKey π}
    (hr : r.canvasKey? = some key) :
    (key ∈ canvases requests → canvases (requests ++ [r]) = canvases requests) ∧
      (key ∉ canvases requests → canvases (requests ++ [r]) = canvases requests ++ [key]) := by
  have hany : (canvases requests).any (key == ·) = true ↔ key ∈ canvases requests := by simp
  rw [← hany, canvases, canvases, List.filterMap_append, List.filterMap_cons_some hr,
    List.filterMap_nil, List.eraseDups, List.eraseDups, eraseDupsBy_concat]
  exact ⟨fun h => if_pos h, fun h => if_neg h⟩

theorem canvases_concat_none (requests : List (Request π)) {r : Request π}
    (hr : r.canvasKey? = none) :
    canvases (requests ++ [r]) = canvases requests := by
  simp [canvases, hr]

omit [PixelCount π] in
/-- A file is one more if it was not asked for before, in whatever spelling. -/
theorem files_concat (requests : List (Request π)) {r : Request π} {key : SourceKey}
    (hr : r.sourceKey? = some key) :
    (key.identity ∈ (files requests).map SourceKey.identity →
      files (requests ++ [r]) = files requests) ∧
    (key.identity ∉ (files requests).map SourceKey.identity →
      files (requests ++ [r]) = files requests ++ [key]) := by
  have hany : (files requests).any key.same = true ↔
      key.identity ∈ (files requests).map SourceKey.identity := by
    rw [List.any_eq_true, List.mem_map]
    simp only [SourceKey.same_iff, @eq_comm _ key.identity]
  rw [← hany, files, files, List.filterMap_append, List.filterMap_cons_some hr,
    List.filterMap_nil, eraseDupsBy_concat]
  exact ⟨fun h => if_pos h, fun h => if_neg h⟩

omit [PixelCount π] in
theorem files_prefix (requests more : List (Request π)) :
    files requests <+: files (requests ++ more) := by
  induction more generalizing requests with
  | nil => simp
  | cons r more ih =>
      have hconcat : files requests <+: files (requests ++ [r]) := by
        cases hr : r.sourceKey? with
        | none => simp [files, hr]
        | some key =>
            obtain ⟨hold, hnew⟩ := files_concat requests hr
            by_cases hasked : key.identity ∈ (files requests).map SourceKey.identity
            · simp [hold hasked]
            · rw [hnew hasked]
              exact List.prefix_append _ _
      have hmore := ih (requests ++ [r])
      rw [List.append_assoc] at hmore
      exact hconcat.trans hmore

omit [PixelCount π] in
theorem files_concat_none (requests : List (Request π)) {r : Request π}
    (hr : r.sourceKey? = none) :
    files (requests ++ [r]) = files requests := by
  simp [files, hr]

end Request

/-! ### Steps -/

namespace Compile

variable {w w' : Workshop τ π}

theorem concrete_eq_ok [PixelCount π] {tag : Tag} {property : Dimension} {l : Length π} {n : π}
    (h : concrete tag property l w = .ok (n, w')) : l.pixels? = some n ∧ w' = w := by
  unfold concrete at h
  cases hl : l.pixels? with
  | none =>
      simp only [hl] at h
      cases h
  | some m =>
      simp only [hl] at h
      obtain ⟨rfl, rfl⟩ := pure_eq_ok.1 h
      exact ⟨rfl, rfl⟩

theorem join_eq_ok {kind : StreamKind} {inputs : List Pad} {filter : Filter τ π} {p : Pad}
    (h : join kind inputs filter w = .ok (p, w')) :
    ∃ g, w' = { w with graph := g } ∧ w.graph.ExtendsBy g [⟨inputs, filter, [p]⟩] := by
  cases h
  exact ⟨_, rfl, rfl, rfl⟩

theorem split_eq_ok {kind : StreamKind} {p a b : Pad} (h : split kind p w = .ok ((a, b), w')) :
    ∃ g, w' = { w with graph := g } ∧ w.graph.ExtendsBy g [⟨[p], .split kind, [a, b]⟩] := by
  cases h
  exact ⟨_, rfl, rfl, rfl⟩

/-- Handing out a stream adds splits only; both halves come from the stream. -/
theorem handOut_eq_ok {kind : StreamKind} {wanted : Bool} {spare taken left : Option Pad}
    (h : handOut kind wanted spare w = .ok ((taken, left), w')) :
    ∃ g more, w' = { w with graph := g } ∧ w.graph.ExtendsBy g more ∧
      (∀ s ∈ more, s.filter.isPlumbing = true) ∧
      taken.isSome = (wanted && spare.isSome) ∧ left.isSome = spare.isSome ∧
      ∀ q, q ∈ taken ∨ q ∈ left → ∃ p ∈ spare, g.SplitFrom p q := by
  cases spare with
  | none =>
      have h' : (.ok ((none, none), w) : Except Failure _) = .ok ((taken, left), w') := by
        cases wanted <;> exact h
      cases h'
      exact ⟨_, [], rfl, .refl _, by simp, by simp, rfl, by simp⟩
  | some p =>
      cases wanted with
      | false =>
          cases h
          refine ⟨_, [], rfl, .refl _, by simp, rfl, rfl, ?_⟩
          rintro q (⟨⟨⟩⟩ | ⟨⟨⟩⟩)
          exact ⟨p, rfl, .self⟩
      | true =>
          obtain ⟨⟨a, b⟩, w₁, hsplit, hpure⟩ := bind_eq_ok.1 h
          cases hpure
          obtain ⟨g, rfl, hg⟩ := split_eq_ok hsplit
          have hs := hg.added List.mem_cons_self
          refine ⟨g, _, rfl, hg, by simp [Filter.isPlumbing], rfl, rfl, ?_⟩
          rintro q (⟨⟨⟩⟩ | ⟨⟨⟩⟩)
          · exact ⟨p, rfl, .half .self hs (.inl rfl)⟩
          · exact ⟨p, rfl, .half .self hs (.inr rfl)⟩

end Compile

end Montage
