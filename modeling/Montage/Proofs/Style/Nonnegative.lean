import Montage.Proofs.Measure.Share
import Montage.Proofs.Scene.Draft

/-!
# Nothing negative

In the style of a document that declares nothing negative there is nothing negative.

**Input.** A document in which no side, margin, padding or font size is declared negative, and a
probe.

**Algorithm.** A length that is declared resolves to a share of the parent or of the frame, to what
is natural, or stays open. The cascade hands it all down from parent to child.

**Results.** `Document.upholds_nothingNegative`: the cascade makes nothing negative.
-/

namespace Montage

variable {τ : Type}

theorem Length.IsNonneg.pixels {l : Length Int} (h : l.IsNonneg) {n : Int}
    (hn : l.pixels? = some n) : 0 ≤ n := by
  cases l <;> cases hn
  exact h

theorem Length.IsNonneg.pixelsOr {l : Length Int} (h : l.IsNonneg) : 0 ≤ l.pixelsOr 0 := by
  cases l <;> first | exact h | exact Int.le_refl 0

/-! ### Declarations -/

/-- A setting that makes no side, edge or font size negative. -/
def Setting.IsNonneg : Setting τ Int → Prop
  | .width l => l.IsNonneg
  | .height l => l.IsNonneg
  | .fontSize l => l.IsNonneg
  | .margin e => ∀ l ∈ e.toList, l.IsNonneg
  | .marginSide _ l => l.IsNonneg
  | .padding e => ∀ l ∈ e.toList, l.IsNonneg
  | .paddingSide _ l => l.IsNonneg
  | _ => True

instance : DecidablePred (Setting.IsNonneg (τ := τ))
  | .width l => inferInstanceAs (Decidable l.IsNonneg)
  | .height l => inferInstanceAs (Decidable l.IsNonneg)
  | .fontSize l => inferInstanceAs (Decidable l.IsNonneg)
  | .margin e => inferInstanceAs (Decidable (∀ l ∈ e.toList, l.IsNonneg))
  | .marginSide _ l => inferInstanceAs (Decidable l.IsNonneg)
  | .padding e => inferInstanceAs (Decidable (∀ l ∈ e.toList, l.IsNonneg))
  | .paddingSide _ l => inferInstanceAs (Decidable l.IsNonneg)
  | .objectLength .. | .timeMargin .. | .timeMarginStart .. | .timeMarginEnd ..
  | .timePadding .. | .timePaddingStart .. | .timePaddingEnd .. | .order .. | .layerMode ..
  | .direction .. | .backgroundColor .. | .audioVolume .. | .audioSystem .. | .fontFamily ..
  | .fontColor .. | .fontBorder .. | .fontBorderColor .. | .fontBorderWidth .. | .fontWeight ..
  | .fontStyle .. => inferInstanceAs (Decidable True)

/-- The declarations of a node itself. -/
def Node.declarations (n : Node) : List Declaration :=
  ((n.attribute? "style").map Sheet.parseInline).getD []

/-- All declarations of a document: those of its sheets and those of its nodes. -/
def Document.declarations (d : Document τ) : List Declaration :=
  d.sheet.rules.flatMap Rule.declarations ++ d.root.nodes.flatMap Node.declarations

/-- No declaration makes a side, an edge or a font size negative. -/
def Document.DeclaresNothingNegative [Timescale τ] (d : Document τ) : Prop :=
  ∀ declaration ∈ d.declarations, ∀ setting : Setting τ Int,
    declaration.setting = .ok setting → setting.IsNonneg

instance [Timescale τ] (d : Declaration) :
    Decidable (∀ setting : Setting τ Int, d.setting = .ok setting → setting.IsNonneg) :=
  match h : (d.setting : Except DeclarationError (Setting τ Int)) with
  | .error _ => isTrue (by simp)
  | .ok setting => decidable_of_iff setting.IsNonneg (by simp)

instance [Timescale τ] (d : Document τ) : Decidable d.DeclaresNothingNegative :=
  inferInstanceAs (Decidable (∀ declaration ∈ d.declarations, _))

theorem Document.mem_declarations {d : Document τ} {probe : Probe τ} {node : Node}
    (hn : node ∈ d.root.nodes) {ancestors : List Identity} {declaration : Declaration}
    (h : declaration ∈ (d.styling probe).declarations node ancestors) :
    declaration ∈ d.declarations := by
  unfold Styling.declarations at h
  simp only [List.mem_append, StyleSheet.matching, List.mem_flatMap, List.mem_filter] at h
  rw [declarations, List.mem_append, List.mem_flatMap, List.mem_flatMap]
  rcases h with ⟨rule, ⟨hrule, _⟩, hmem⟩ | hmem
  · exact Or.inl ⟨rule, hrule, hmem⟩
  · refine Or.inr ⟨node, hn, ?_⟩
    unfold Node.declarations
    cases ha : node.attribute? "style" with
    | none => rw [ha] at hmem; cases hmem
    | some text => rw [ha] at hmem; exact hmem

namespace Style

/-- No side, edge, font size or natural side of a style is negative. -/
structure NothingNegative (s : Style τ Int) : Prop where
  width : s.width.IsNonneg
  height : s.height.IsNonneg
  margin : ∀ l ∈ s.margin.toList, l.IsNonneg
  padding : ∀ l ∈ s.padding.toList, l.IsNonneg
  font : ∀ l, s.fontSize = some l → l.IsNonneg
  naturalWidth : ∀ n, s.source.width = some n → 0 ≤ n
  naturalHeight : ∀ n, s.source.height = some n → 0 ≤ n

namespace NothingNegative

variable {s : Style τ Int}

theorem apply (h : s.NothingNegative) {setting : Setting τ Int} (hs : setting.IsNonneg) :
    (setting.apply s).NothingNegative := by
  have hset : ∀ (e : Edges Int) (side : Side) (l : Length Int), (∀ k ∈ e.toList, k.IsNonneg) →
      l.IsNonneg → ∀ k ∈ (e.set l side).toList, k.IsNonneg := by
    intro e side l he hl
    simp only [Edges.toList, List.forall_mem_cons] at he
    cases side <;> simp [Edges.set, Edges.toList, he, hl]
  obtain ⟨hw, hh, hm, hp, hf, hnw, hnh⟩ := h
  cases setting with
  | width l => exact ⟨hs, hh, hm, hp, hf, hnw, hnh⟩
  | height l => exact ⟨hw, hs, hm, hp, hf, hnw, hnh⟩
  | margin e => exact ⟨hw, hh, hs, hp, hf, hnw, hnh⟩
  | marginSide side l => exact ⟨hw, hh, hset _ side l hm hs, hp, hf, hnw, hnh⟩
  | padding e => exact ⟨hw, hh, hm, hs, hf, hnw, hnh⟩
  | paddingSide side l => exact ⟨hw, hh, hm, hset _ side l hp hs, hf, hnw, hnh⟩
  | fontSize l =>
      refine ⟨hw, hh, hm, hp, ?_, hnw, hnh⟩
      rintro k ⟨⟩
      exact hs
  | _ => exact ⟨hw, hh, hm, hp, hf, hnw, hnh⟩

theorem withAttributes (h : s.NothingNegative) (node : Node) :
    (s.withAttributes node).NothingNegative := by
  obtain ⟨hw, hh, hm, hp, hf, hnw, hnh⟩ := h
  unfold Style.withAttributes
  repeat' split
  all_goals exact ⟨hw, hh, hm, hp, hf, hnw, hnh⟩

/-- The box of a text is not negative. -/
theorem textBox_nonneg (h : s.NothingNegative) {text : String} {box : Int × Int}
    (hb : s.textBox? text = some box) : 0 ≤ box.1 ∧ 0 ≤ box.2 := by
  unfold textBox? at hb
  cases hf : s.fontSize with
  | none => rw [hf] at hb; cases hb
  | some size =>
      cases hp : size.pixels? with
      | none => simp [hf, hp] at hb
      | some font =>
          have hfont : 0 ≤ font := (h.font size hf).pixels hp
          simp only [hf, hp, Option.bind_eq_bind, Option.bind_some, Option.some.injEq] at hb
          subst hb
          have hborder : 0 ≤ max (s.fontBorderWidth.getD 0) 0 * 2 := by omega
          have hside : ∀ n : Nat, 0 ≤ (n : Int) * font := fun n =>
            Int.mul_nonneg (Int.natCast_nonneg n) hfont
          exact ⟨Int.add_nonneg (hside _) hborder, Int.add_nonneg (hside _) hborder⟩

theorem measured (h : s.NothingNegative) (text : Option String) :
    (s.measured text).NothingNegative := by
  unfold Style.measured
  split
  · exact h
  · next text =>
      split
      · next width height hbox =>
          obtain ⟨hwidth, hheight⟩ := h.textBox_nonneg hbox
          refine ⟨h.width, h.height, h.margin, h.padding, h.font, ?_, ?_⟩
          · rintro n ⟨⟩
            exact hwidth
          · rintro n ⟨⟩
            exact hheight
      · exact h

theorem resolveEdge_nonneg {parent : Option Int} (hp : ∀ n, parent = some n → 0 ≤ n)
    (frame : Resolution) {l : Length Int} (h : l.IsNonneg) :
    (resolveEdge parent frame l).IsNonneg := by
  have hresolve : (l.resolve parent none frame).IsNonneg :=
    Length.resolve_nonneg hp (by simp) frame h
  unfold resolveEdge
  split
  · next n hn => exact hn ▸ hresolve
  · exact Int.le_refl 0

theorem resolveEdges_nonneg {width height : Option Int} (hw : ∀ n, width = some n → 0 ≤ n)
    (hh : ∀ n, height = some n → 0 ≤ n) (frame : Resolution) {e : Edges Int}
    (h : ∀ l ∈ e.toList, l.IsNonneg) :
    ∀ l ∈ (resolveEdges width height frame e).toList, l.IsNonneg := by
  simp only [Edges.toList, resolveEdges, List.forall_mem_cons] at h ⊢
  obtain ⟨htop, hright, hbottom, hleft, hnil⟩ := h
  exact ⟨resolveEdge_nonneg hh frame htop, resolveEdge_nonneg hw frame hright,
    resolveEdge_nonneg hh frame hbottom, resolveEdge_nonneg hw frame hleft, hnil⟩

theorem withDefaults (h : s.NothingNegative) (tag : Tag) :
    (s.withDefaults tag).NothingNegative := by
  have htext : ∀ l, some (s.fontSize.getD defaultFontSize) = some l → l.IsNonneg := by
    rintro l ⟨⟩
    cases hf : s.fontSize with
    | none => exact (by decide : (0 : Int) ≤ 30)
    | some size => exact h.font size hf
  obtain ⟨hw, hh, hm, hp, hf, hnw, hnh⟩ := h
  cases tag with
  | txt => exact ⟨hw, hh, hm, hp, htext, hnw, hnh⟩
  | _ => exact ⟨hw, hh, hm, hp, hf, hnw, hnh⟩

variable [Timescale τ]

theorem declareAll (h : s.NothingNegative) (ds : List Declaration)
    (hd : ∀ d ∈ ds, ∀ setting : Setting τ Int, d.setting = .ok setting → setting.IsNonneg) :
    (s.declareAll ds).NothingNegative := by
  unfold Style.declareAll
  induction ds generalizing s with
  | nil => exact h
  | cons d ds ih =>
      obtain ⟨hfirst, hrest⟩ := List.forall_mem_cons.1 hd
      refine ih ?_ hrest
      unfold declare
      split
      · next setting hs => exact h.apply (hfirst setting hs)
      · exact h

/-- Resolving units against a parent that has nothing negative makes nothing negative. -/
theorem resolve (h : s.NothingNegative) (text : Option String) {parent : Option (Style τ Int)}
    (hp : ∀ p, parent = some p → p.NothingNegative) (frame : Frame τ) :
    (s.resolve text parent frame).NothingNegative := by
  have hsides : ∀ {r : Style τ Int} {width height : Option Int}, r.NothingNegative →
      (∀ n, width = some n → 0 ≤ n) → (∀ n, height = some n → 0 ≤ n) →
      ({ r with
        width := r.width.resolve width r.source.width frame.resolution
        height := r.height.resolve height r.source.height frame.resolution
        margin := resolveEdges width height frame.resolution r.margin
        padding := resolveEdges width height frame.resolution r.padding } :
          Style τ Int).NothingNegative := by
    intro r width height hr hw hh
    exact ⟨Length.resolve_nonneg hw hr.naturalWidth _ hr.width,
      Length.resolve_nonneg hh hr.naturalHeight _ hr.height,
      resolveEdges_nonneg hw hh _ hr.margin, resolveEdges_nonneg hw hh _ hr.padding, hr.font,
      hr.naturalWidth, hr.naturalHeight⟩
  have hfont : ∀ {height : Option Int}, (∀ n, height = some n → 0 ≤ n) →
      ∀ l, s.fontSize.map (Length.resolve height none frame.resolution) = some l → l.IsNonneg := by
    intro height hh l hl
    obtain ⟨size, hsize, rfl⟩ := Option.map_eq_some_iff.1 hl
    exact Length.resolve_nonneg hh (by simp) _ (h.font size hsize)
  cases parent with
  | none =>
      have hcount : ∀ k : Nat, ∀ n : Int, some (PixelCount.ofInt (k : Int)) = some n → 0 ≤ n := by
        rintro k n ⟨⟩
        exact Int.natCast_nonneg k
      refine hsides (measured ?_ text) (hcount _) (hcount _)
      exact ⟨h.width, h.height, h.margin, h.padding, hfont (hcount _), h.naturalWidth,
        h.naturalHeight⟩
  | some p =>
      have hparent := hp p rfl
      have hwidth : ∀ n, p.width.pixels? = some n → 0 ≤ n := fun n hn => hparent.width.pixels hn
      have hheight : ∀ n, p.height.pixels? = some n → 0 ≤ n := fun n hn => hparent.height.pixels hn
      refine hsides (measured ?_ text) hwidth hheight
      exact ⟨h.width, h.height, h.margin, h.padding, hfont hheight, h.naturalWidth,
        h.naturalHeight⟩

theorem initial : (Style.initial : Style τ Int).NothingNegative := by
  have hzero : ∀ l ∈ (Edges.zero : Edges Int).toList, l.IsNonneg := by decide
  exact ⟨trivial, trivial, hzero, hzero, nofun, nofun, nofun⟩

theorem inherited {parent : Style τ Int} (h : parent.NothingNegative) :
    (Style.inherited parent).NothingNegative := by
  have hinitial : (Style.initial : Style τ Int).NothingNegative := initial
  exact ⟨hinitial.width, hinitial.height, hinitial.margin, hinitial.padding, h.font,
    hinitial.naturalWidth, hinitial.naturalHeight⟩

/-- What a node inherits, and what its element sets, is not negative. -/
theorem base (node : Node) {parent : Option (Style τ Int)}
    (hp : ∀ p, parent = some p → p.NothingNegative) {facts : SourceFacts τ Int}
    (hw : ∀ n, facts.width = some n → 0 ≤ n) (hh : ∀ n, facts.height = some n → 0 ≤ n) :
    ({ Styling.base node parent with source := facts } : Style τ Int).NothingNegative := by
  have hbase : (Styling.base node parent : Style τ Int).NothingNegative := by
    cases parent with
    | none => exact initial.withDefaults node.tag
    | some p => exact (inherited (hp p rfl)).withDefaults node.tag
  exact ⟨hbase.width, hbase.height, hbase.margin, hbase.padding, hbase.font, hw, hh⟩

end NothingNegative

end Style

/-! ### The cascade -/

section

variable [Timescale τ] {d : Document τ} {probe : Probe τ}

omit [Timescale τ] in
/-- The natural box that a node is told of is not negative. -/
theorem Styling.Tells.nonneg {c : Styling τ} {node : Node} {source : Option Path}
    {facts : SourceFacts τ Int} (h : c.Tells node source facts) :
    (∀ n, facts.width = some n → 0 ≤ n) ∧ ∀ n, facts.height = some n → 0 ≤ n := by
  cases h with
  | unknown => exact ⟨nofun, nofun⟩
  | media _ _ _ _ _ hf =>
      have hcount : ∀ {o : Option VideoInfo} {side : VideoInfo → Nat} (n : Int),
          o.map (fun v => PixelCount.ofInt (side v : Int)) = some n → 0 ≤ n := by
        intro o side n hn
        obtain ⟨v, -, rfl⟩ := Option.map_eq_some_iff.1 hn
        exact Int.natCast_nonneg _
      rw [(MediaInfo.facts_eq_ok hf).2]
      exact ⟨hcount, hcount⟩

/-- The cascade of a document that declares nothing negative makes nothing negative. -/
theorem Document.upholds_nothingNegative (h : d.DeclaresNothingNegative) :
    (d.styling probe).Upholds d.baseDir d.root
      fun s : Style τ Int => s.NothingNegative := by
  intro node hn ancestors parent facts hp ht
  obtain ⟨hw, hh⟩ := ht.nonneg
  have hdeclared := (Style.NothingNegative.base node hp hw hh).declareAll
    ((d.styling probe).declarations node ancestors)
    fun declaration hd => h declaration (mem_declarations hn hd)
  exact (hdeclared.withAttributes node).resolve _ hp _

end
end Montage
