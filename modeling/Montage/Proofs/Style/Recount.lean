import Montage.Proofs.Measure.Passage
import Montage.Proofs.Scene.Draft

/-!
# Styles in other counts

A style is found alike in two kinds of counts.

**Input.** A passage from one kind of counts to another.

**Algorithm.** The text of a document tells what it declares in either kind. On the way down the
cascade counts are added, multiplied and compared, and all of this passes.

**Results.** `Styling.style_recount`: a node that is styled under a parent in one kind of counts is
styled under the same parent in the other.
-/

namespace Montage

variable {τ π ρ : Type}

/-! ### Settings -/

/-- The facts with their counts passed on. -/
@[simps]
def SourceFacts.recount (f : π → ρ) (s : SourceFacts τ π) : SourceFacts τ ρ where
  duration := s.duration
  width := s.width.map f
  height := s.height.map f
  hasAudio := s.hasAudio
  audioSystem := s.audioSystem

/-- The style with its counts passed on. -/
@[simps]
def Style.recount (f : π → ρ) (s : Style τ π) : Style τ ρ where
  objectLength := s.objectLength
  timeMarginStart := s.timeMarginStart
  timeMarginEnd := s.timeMarginEnd
  timePaddingStart := s.timePaddingStart
  timePaddingEnd := s.timePaddingEnd
  order := s.order
  width := s.width.recount f
  height := s.height.recount f
  layerMode := s.layerMode
  direction := s.direction
  margin := s.margin.recount f
  padding := s.padding.recount f
  backgroundColor := s.backgroundColor
  audioVolume := s.audioVolume
  audioSystem := s.audioSystem
  fontFamily := s.fontFamily
  fontSize := s.fontSize.map (Length.recount f)
  fontColor := s.fontColor
  fontBorderColor := s.fontBorderColor
  fontBorderWidth := s.fontBorderWidth.map f
  fontWeight := s.fontWeight
  fontStyle := s.fontStyle
  source := s.source.recount f

namespace Setting

/-- The setting with its counts passed on. -/
def recount (f : π → ρ) : Setting τ π → Setting τ ρ
  | objectLength t => objectLength t
  | timeMargin start stop => timeMargin start stop
  | timeMarginStart t => timeMarginStart t
  | timeMarginEnd t => timeMarginEnd t
  | timePadding start stop => timePadding start stop
  | timePaddingStart t => timePaddingStart t
  | timePaddingEnd t => timePaddingEnd t
  | order o => order o
  | layerMode m => layerMode m
  | direction d => direction d
  | width l => width (l.recount f)
  | height l => height (l.recount f)
  | margin e => margin (e.recount f)
  | marginSide side l => marginSide side (l.recount f)
  | padding e => padding (e.recount f)
  | paddingSide side l => paddingSide side (l.recount f)
  | backgroundColor c => backgroundColor c
  | audioVolume p => audioVolume p
  | audioSystem a => audioSystem a
  | fontFamily name => fontFamily name
  | fontSize l => fontSize (l.recount f)
  | fontColor c => fontColor c
  | fontBorder c w => fontBorder c (f w)
  | fontBorderColor c => fontBorderColor c
  | fontBorderWidth w => fontBorderWidth (f w)
  | fontWeight w => fontWeight w
  | fontStyle s => fontStyle s

theorem apply_recount (f : π → ρ) (setting : Setting τ π) (s : Style τ π) :
    (setting.recount f).apply (s.recount f) = (setting.apply s).recount f := by
  cases setting with
  | marginSide side => cases side <;> rfl
  | paddingSide side => cases side <;> rfl
  | _ => rfl

end Setting

/-! ### Declarations -/

/-- A grammar that reads a value alike in another kind of counts. -/
def Grammar.Passes (f : π → ρ) (g : Grammar τ π) (g' : Grammar τ ρ) : Prop :=
  ∀ property value, g' property value = (g property value).map (Setting.recount f)

namespace Grammar

variable {α β : Type} {f : π → ρ}

theorem passes_reads {read : String → Except ValueError α} {read' : String → Except ValueError β}
    (pass : α → β) {make : α → Setting τ π} {make' : β → Setting τ ρ}
    (hread : ∀ value, read' value = (read value).map pass)
    (hmake : ∀ a, make' (pass a) = (make a).recount f) :
    Passes f (reads read make) (reads read' make') := by
  intro property value
  simp only [reads, hread]
  cases read value with
  | error e => rfl
  | ok a => exact congrArg Except.ok (hmake a)

theorem passes_expects {read : String → Option α} {read' : String → Option β} (pass : α → β)
    {make : α → Setting τ π} {make' : β → Setting τ ρ}
    (hread : ∀ value, read' value = (read value).map pass)
    (hmake : ∀ a, make' (pass a) = (make a).recount f) :
    Passes f (expects read make) (expects read' make') := by
  intro property value
  simp only [expects, hread]
  cases read value with
  | none => rfl
  | some a => exact congrArg Except.ok (hmake a)

variable [PixelCount π] [PixelCount ρ] (P : Passage f)
include P

theorem edges?_recount (value : String) :
    (edges? value : Option (Edges ρ)) = (edges? value).map (Edges.recount f) := by
  have hparts : ∀ parts : List String,
      (parts.mapM fun part => (Length.parse part : Except ValueError (Length ρ)).toOption) =
        (parts.mapM fun part => (Length.parse part : Except ValueError (Length π)).toOption).map
          (List.map (Length.recount f)) := by
    intro parts
    induction parts with
    | nil => rfl
    | cons part rest ih =>
        rw [List.mapM_cons, List.mapM_cons, ih, Length.parse_recount P]
        cases (Length.parse part : Except ValueError (Length π)) with
        | error e => rfl
        | ok l =>
            cases rest.mapM fun part => (Length.parse part : Except ValueError (Length π)).toOption
              <;> rfl
  rw [edges?, edges?, hparts]
  generalize (parts value).mapM (fun part =>
    (Length.parse part : Except ValueError (Length π)).toOption) = found
  cases found with
  | none => rfl
  | some ls => exact Edges.ofList?_recount ls

theorem pixels?_recount (value : String) : (pixels? value : Option ρ) = (pixels? value).map f := by
  rw [pixels?, pixels?, Length.parse_recount P]
  cases (Length.parse value : Except ValueError (Length π)) with
  | error e => rfl
  | ok l => exact Length.pixels?_recount l

theorem colorAndPixels?_recount (value : String) :
    (colorAndPixels? value : Option (Color × ρ)) =
      (colorAndPixels? value).map (Prod.map id f) := by
  unfold colorAndPixels?
  split
  · next first second _ =>
      rw [pixels?_recount P first, pixels?_recount P second]
      cases (pixels? first : Option π) with
      | some n => cases (Color.parse second).toOption <;> rfl
      | none =>
          cases (Color.parse first).toOption with
          | none => rfl
          | some c => cases (pixels? second : Option π) <;> rfl
  · rfl

variable [Timescale τ]

/-- Every property has the same grammar in either kind of counts. -/
theorem passes_all :
    List.Forall₂ (fun e e' => e.1 = e'.1 ∧ Passes f e.2 e'.2)
      (all : List (String × Grammar τ π)) (all : List (String × Grammar τ ρ)) := by
  have hplain : ∀ {α : Type} {read : String → Except ValueError α} {make : α → Setting τ π}
      {make' : α → Setting τ ρ}, (∀ a, make' a = (make a).recount f) →
      Passes f (reads read make) (reads read make') :=
    passes_reads id fun _ => (congrFun Except.map_id _).symm
  have hgiven : ∀ {α : Type} {read : String → Option α} {make : α → Setting τ π}
      {make' : α → Setting τ ρ}, (∀ a, make' a = (make a).recount f) →
      Passes f (expects read make) (expects read make') :=
    passes_expects id fun _ => Option.map_id_apply.symm
  unfold all
  repeat' refine List.Forall₂.cons ⟨rfl, ?_⟩ ?_
  -- The kind of an entry shows without unfolding anything.
  all_goals first
    | with_reducible exact List.Forall₂.nil
    | with_reducible refine hplain ?_
      exact fun _ => rfl
    | with_reducible refine hgiven ?_
      exact fun _ => rfl
    | with_reducible refine passes_reads (Length.recount f) (Length.parse_recount P) ?_
      exact fun _ => rfl
    | with_reducible refine passes_expects (Edges.recount f) (edges?_recount P) ?_
      exact fun _ => rfl
    | with_reducible refine passes_expects f (pixels?_recount P) ?_
      exact fun _ => rfl
    | with_reducible refine passes_expects (Prod.map id f) (colorAndPixels?_recount P) ?_
      exact fun _ => rfl
    | exact fun _ _ => rfl

end Grammar

namespace Declaration

variable {f : π → ρ}

theorem lookup_passes {entries : List (String × Grammar τ π)}
    {entries' : List (String × Grammar τ ρ)}
    (h : List.Forall₂ (fun e e' => e.1 = e'.1 ∧ Grammar.Passes f e.2 e'.2) entries entries')
    (property : String) :
    Option.Rel (Grammar.Passes f) (entries.lookup property) (entries'.lookup property) := by
  induction h with
  | nil => exact .none
  | @cons e e' rest rest' h _ ih =>
      rw [List.lookup_cons, List.lookup_cons, ← h.1]
      cases property == e.1 with
      | true => exact .some h.2
      | false => exact ih

variable [Timescale τ] [PixelCount π] [PixelCount ρ]

/-- A declaration writes alike in either kind of counts. -/
theorem setting_recount (P : Passage f) (d : Declaration) :
    (d.setting : Except DeclarationError (Setting τ ρ)) = d.setting.map (Setting.recount f) := by
  have hlookup := lookup_passes (Grammar.passes_all (τ := τ) P) d.property
  simp only [setting]
  generalize (Grammar.all : List (String × Grammar τ π)).lookup d.property = grammar at hlookup
  generalize (Grammar.all : List (String × Grammar τ ρ)).lookup d.property = grammar' at hlookup
  cases hlookup with
  | none => rfl
  | @some g g' h =>
      simp only [h d.property (String.ofList (Text.trim d.value.toList))]
      cases g d.property (String.ofList (Text.trim d.value.toList)) <;> rfl

end Declaration

/-! ### The cascade -/

namespace Style

variable {f : π → ρ}

theorem extent_recount (s : Style τ π) (axis : Axis) :
    (s.recount f).extent axis = (s.extent axis).recount f := by
  cases axis <;> rfl

theorem withAttributes_recount (s : Style τ π) (node : Node) :
    (s.recount f).withAttributes node = (s.withAttributes node).recount f := by
  unfold withAttributes
  repeat' split
  all_goals rfl

variable [PixelCount π] [PixelCount ρ] (P : Passage f)
include P

theorem withDefaults_recount (s : Style τ π) (tag : Tag) :
    (s.recount f).withDefaults tag = (s.withDefaults tag).recount f := by
  have hfont : (defaultFontSize : Length ρ) = defaultFontSize.recount f :=
    congrArg Length.pixel (P.ofInt 30).symm
  cases tag with
  | txt =>
      simp only [withDefaults, recount, hfont]
      cases s.fontSize <;> rfl
  | _ => rfl

/-- A text has the same box in either kind of counts. -/
theorem textBox?_recount (s : Style τ π) (text : String) :
    (s.recount f).textBox? text = (s.textBox? text).map (Prod.map f f) := by
  have hborder :
      max ((s.fontBorderWidth.map f).getD 0) 0 = f (max (s.fontBorderWidth.getD 0) 0) := by
    cases s.fontBorderWidth with
    | none => simp only [Option.map_none, Option.getD_none, P.max, P.zero]
    | some n => simp only [Option.map_some, Option.getD_some, P.max, P.zero]
  unfold textBox?
  simp only [recount, hborder]
  cases s.fontSize with
  | none => rfl
  | some size =>
      cases size with
      | pixel font =>
          simp only [Option.map_some, Length.recount, Length.pixels?_pixel, Option.bind_eq_bind,
            Option.bind_some, Prod.map, P.add, P.mul, P.ofInt]
      | _ => rfl

theorem measured_recount (s : Style τ π) (text : Option String) :
    (s.recount f).measured text = (s.measured text).recount f := by
  cases text with
  | none => rfl
  | some text =>
      simp only [measured, textBox?_recount P]
      cases s.textBox? text <;> rfl

theorem resolveEdge_recount (parent : Option π) (frame : Resolution) (l : Length π) :
    resolveEdge (parent.map f) frame (l.recount f) = (resolveEdge parent frame l).recount f := by
  have hresolve := Length.recount_resolve P parent none frame l
  rw [Option.map_none] at hresolve
  rw [resolveEdge, resolveEdge, hresolve]
  cases l.resolve parent none frame with
  | pixel n => rfl
  | _ => exact (Length.recount_zero P).symm

theorem resolveEdges_recount (width height : Option π) (frame : Resolution) (e : Edges π) :
    resolveEdges (width.map f) (height.map f) frame (e.recount f) =
      (resolveEdges width height frame e).recount f := by
  simp only [resolveEdges, Edges.recount, resolveEdge_recount P]

/-! ### Units -/

/-- The sides that a node is resolved against: those of its parent, or those of the frame. -/
def around (parent : Option (Style τ π)) (frame : Resolution) : Option π × Option π :=
  match parent with
  | some p => (p.width.pixels?, p.height.pixels?)
  | none => (some (PixelCount.ofInt frame.width), some (PixelCount.ofInt frame.height))

/-- The style with its box resolved. -/
def boxed (s : Style τ π) (width height : Option π) (frame : Resolution) : Style τ π :=
  { s with
    width := s.width.resolve width s.source.width frame
    height := s.height.resolve height s.source.height frame
    margin := resolveEdges width height frame s.margin
    padding := resolveEdges width height frame s.padding }

theorem around_recount (parent : Option (Style τ π)) (frame : Resolution) :
    around (parent.map (recount f)) frame =
      ((around parent frame).1.map f, (around parent frame).2.map f) := by
  cases parent with
  | none => simp only [around, Option.map_none, Option.map_some, P.ofInt]
  | some p => simp only [around, Option.map_some, recount, Length.pixels?_recount]

theorem boxed_recount (s : Style τ π) (width height : Option π) (frame : Resolution) :
    (s.recount f).boxed (width.map f) (height.map f) frame =
      (s.boxed width height frame).recount f := by
  simp only [boxed, recount, SourceFacts.recount, Length.recount_resolve P,
    resolveEdges_recount P]

variable [Timescale τ]

/-- The style with its times and its font resolved. -/
def timed (s : Style τ π) (length : Option τ) (height : Option π) (frame : Frame τ) : Style τ π :=
  { s with
    objectLength := s.objectLength.resolve length s.source.duration frame.fps
    timeMarginStart := resolveSpan length frame.fps s.timeMarginStart
    timeMarginEnd := resolveSpan length frame.fps s.timeMarginEnd
    timePaddingStart := resolveSpan length frame.fps s.timePaddingStart
    timePaddingEnd := resolveSpan length frame.fps s.timePaddingEnd
    fontSize := s.fontSize.map (Length.resolve height none frame.resolution) }

omit [PixelCount ρ] P in
theorem resolve_eq (s : Style τ π) (text : Option String) (parent : Option (Style τ π))
    (frame : Frame τ) :
    s.resolve text parent frame =
      ((s.timed (parent.bind fun p => p.objectLength.seconds?) (around parent frame.resolution).2
          frame).measured text).boxed (around parent frame.resolution).1
        (around parent frame.resolution).2 frame.resolution := by
  cases parent <;> rfl

theorem timed_recount (s : Style τ π) (length : Option τ) (height : Option π) (frame : Frame τ) :
    (s.recount f).timed length (height.map f) frame = (s.timed length height frame).recount f := by
  have hfont : ∀ l : Length π, (l.recount f).resolve (height.map f) none frame.resolution =
      (l.resolve height none frame.resolution).recount f :=
    Length.recount_resolve P height none frame.resolution
  simp only [timed, recount, Option.map_map, Function.comp_def, hfont]
  rfl

/-- Units are resolved alike in either kind of counts. -/
theorem resolve_recount (s : Style τ π) (text : Option String) (parent : Option (Style τ π))
    (frame : Frame τ) :
    (s.recount f).resolve text (parent.map (recount f)) frame =
      (s.resolve text parent frame).recount f := by
  have hlength : ((parent.map (recount f)).bind fun p => p.objectLength.seconds?) =
      parent.bind fun p => p.objectLength.seconds? := by
    cases parent <;> rfl
  rw [resolve_eq, resolve_eq, hlength, around_recount P, timed_recount P, measured_recount P,
    boxed_recount P]

/-! ### Nodes -/

theorem recount_initial : (initial : Style τ π).recount f = initial := by
  simp only [recount, initial, Edges.recount_zero P]
  rfl

theorem inherited_recount (parent : Style τ π) :
    inherited (parent.recount f) = (inherited parent).recount f := by
  simp only [inherited, recount, initial, Edges.recount_zero P]
  rfl

theorem declareAll_recount (s : Style τ π) (ds : List Declaration) :
    (s.recount f).declareAll ds = (s.declareAll ds).recount f := by
  have hdeclare : ∀ (s : Style τ π) (d : Declaration),
      (s.recount f).declare d = (s.declare d).recount f := by
    intro s d
    rw [declare, declare, Declaration.setting_recount P d]
    cases (d.setting : Except DeclarationError (Setting τ π)) with
    | error e => rfl
    | ok setting => exact setting.apply_recount f s
  unfold declareAll
  induction ds generalizing s with
  | nil => rfl
  | cons d ds ih => rw [List.foldl_cons, List.foldl_cons, hdeclare, ih]

end Style

theorem MediaInfo.facts_recount [PixelCount π] [PixelCount ρ] {f : π → ρ}
    (P : Passage f) (m : MediaInfo τ) (kind : MediaKind) :
    (m.facts kind : Except MissingPart (SourceFacts τ ρ)) =
      (m.facts kind).map (SourceFacts.recount f) := by
  unfold facts
  split
  · rfl
  · simp only [Except.map, SourceFacts.recount, Option.map_map, Function.comp_def, P.ofInt]

namespace Styling

variable [Timescale τ] [PixelCount π] [PixelCount ρ] {f : π → ρ} (P : Passage f)
include P

theorem base_recount (node : Node) (parent : Option (Style τ π)) :
    base node (parent.map (Style.recount f)) = (base node parent).recount f := by
  cases parent with
  | none =>
      simp only [base, Option.map_none, ← Style.withDefaults_recount P, Style.recount_initial P]
  | some p =>
      simp only [base, Option.map_some, ← Style.withDefaults_recount P, Style.inherited_recount P]

omit [Timescale τ] in
theorem facts_recount (c : Styling τ) (node : Node) (source : Option Path) :
    (c.facts node source : Probing τ (SourceFacts τ ρ)) =
      SourceFacts.recount f <$> c.facts node source := by
  unfold facts
  split
  · rfl
  · rfl
  · next kind _ _ =>
      cases source with
      | none => rfl
      | some path =>
          simp only [map_bind]
          refine congrArg (Probing.info c.probe path >>= ·) (funext fun info => ?_)
          rw [MediaInfo.facts_recount P]
          cases (info.facts kind : Except MissingPart (SourceFacts τ π)) <;> rfl

/-- A node whose media are known has the same style in either kind of counts. -/
theorem styleOf_recount (c : Styling τ) (node : Node) (ancestors : List Identity)
    (parent : Option (Style τ π)) (facts : SourceFacts τ π) :
    c.styleOf node ancestors (parent.map (Style.recount f)) (facts.recount f) =
      (c.styleOf node ancestors parent facts).recount f := by
  have hbase : ({ base node (parent.map (Style.recount f)) with source := facts.recount f } :
      Style τ ρ) = Style.recount f { base node parent with source := facts } := by
    rw [base_recount P]
    rfl
  simp only [styleOf]
  rw [hbase, Style.declareAll_recount P, Style.withAttributes_recount, Style.resolve_recount P]

/-- A node has the same style in either kind of counts. -/
theorem style_recount (c : Styling τ) (node : Node) (ancestors : List Identity)
    (parent : Option (Style τ π)) (source : Option Path) :
    c.style node ancestors (parent.map (Style.recount f)) source =
      Style.recount f <$> c.style node ancestors parent source := by
  unfold style
  rw [facts_recount P, bind_map_left, map_bind]
  refine congrArg (c.facts node source >>= ·) (funext fun facts => ?_)
  exact congrArg pure (styleOf_recount P c node ancestors parent facts)

end Styling
end Montage
