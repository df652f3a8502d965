import Mathlib.Data.List.Forall2
import Mathlib.Data.List.Induction
import Montage.Style.Cascade

/-!
# Precedence

Of the declarations for a node, the last valid one decides, for every field on its own.

**Input.** A style and the declarations that apply to it, in order.

**Algorithm.** A property addresses some fields of a style (`Field.table`). Its grammar, where it
accepts a value, writes all of them and no others, whatever style stands below (`Grammar.Targets`).
So what a list of declarations leaves in a field is what its last writer leaves there, by induction
from the end of the list.

**Results.**
* `Style.read_declare`: what a declaration leaves in a field.
* `Style.read_declareAll`: what a list of declarations leaves in a field.
* `Styling.read_declared`: the value of every field in the cascade of a node.
-/

namespace Montage

variable {τ π : Type}

/-- A field of a style. Every edge counts on its own, and so does every end of a time. -/
inductive Field where
  | objectLength
  | timeMarginStart
  | timeMarginEnd
  | timePaddingStart
  | timePaddingEnd
  | order
  | width
  | height
  | layerMode
  | direction
  | margin (side : Side)
  | padding (side : Side)
  | backgroundColor
  | audioVolume
  | audioSystem
  | fontFamily
  | fontSize
  | fontColor
  | fontBorderColor
  | fontBorderWidth
  | fontWeight
  | fontStyle
  | source
  deriving Repr, DecidableEq

/-- One side of a box. -/
def Edges.get (e : Edges π) : Side → Length π
  | .top => e.top
  | .right => e.right
  | .bottom => e.bottom
  | .left => e.left

theorem Edges.eq_of_get {e e' : Edges π} (h : ∀ side, e.get side = e'.get side) : e = e' := by
  obtain ⟨top, right, bottom, left⟩ := e
  obtain rfl : top = e'.top := h .top
  obtain rfl : right = e'.right := h .right
  obtain rfl : bottom = e'.bottom := h .bottom
  obtain rfl : left = e'.left := h .left
  rfl

namespace Field

/-- What stands in a field. -/
def Value (τ π : Type) : Field → Type
  | objectLength => Span τ
  | timeMarginStart => Span τ
  | timeMarginEnd => Span τ
  | timePaddingStart => Span τ
  | timePaddingEnd => Span τ
  | order => Order
  | width => Length π
  | height => Length π
  | layerMode => LayerMode
  | direction => Direction
  | margin _ => Length π
  | padding _ => Length π
  | backgroundColor => Option Color
  | audioVolume => Float
  | audioSystem => Option AudioSystem
  | fontFamily => Option String
  | fontSize => Option (Length π)
  | fontColor => Option Color
  | fontBorderColor => Option Color
  | fontBorderWidth => Option π
  | fontWeight => Option FontWeight
  | fontStyle => Option FontStyle
  | source => SourceFacts τ π

/-- The four edges of a margin. -/
def margins : List Field :=
  [margin .top, margin .right, margin .bottom, margin .left]

/-- The four edges of a padding. -/
def paddings : List Field :=
  [padding .top, padding .right, padding .bottom, padding .left]

/-- The properties and the fields that they address. -/
def table : List (String × List Field) :=
  [("object-length", [objectLength]),
    ("time-margin", [timeMarginStart, timeMarginEnd]),
    ("time-margin-start", [timeMarginStart]),
    ("time-margin-end", [timeMarginEnd]),
    ("time-padding", [timePaddingStart, timePaddingEnd]),
    ("time-padding-start", [timePaddingStart]),
    ("time-padding-end", [timePaddingEnd]),
    ("order", [order]),
    ("layer-mode", [layerMode]),
    ("layer", [layerMode]),
    ("direction", [direction]),
    ("width", [width]),
    ("height", [height]),
    ("margin", margins),
    ("margin-top", [margin .top]),
    ("margin-right", [margin .right]),
    ("margin-bottom", [margin .bottom]),
    ("margin-left", [margin .left]),
    ("padding", paddings),
    ("padding-top", [padding .top]),
    ("padding-right", [padding .right]),
    ("padding-bottom", [padding .bottom]),
    ("padding-left", [padding .left]),
    ("background-color", [backgroundColor]),
    ("audio-volume", [audioVolume]),
    ("audio-system", [audioSystem]),
    ("font-color", [fontColor]),
    ("font-border", [fontBorderColor, fontBorderWidth]),
    ("font-border-color", [fontBorderColor]),
    ("font-border-width", [fontBorderWidth]),
    ("font-family", [fontFamily]),
    ("font-size", [fontSize]),
    ("font-weight", [fontWeight]),
    ("font-style", [fontStyle])]

end Field

namespace Style

/-- What stands in a field of a style. -/
def read (s : Style τ π) : (f : Field) → f.Value τ π
  | .objectLength => s.objectLength
  | .timeMarginStart => s.timeMarginStart
  | .timeMarginEnd => s.timeMarginEnd
  | .timePaddingStart => s.timePaddingStart
  | .timePaddingEnd => s.timePaddingEnd
  | .order => s.order
  | .width => s.width
  | .height => s.height
  | .layerMode => s.layerMode
  | .direction => s.direction
  | .margin side => s.margin.get side
  | .padding side => s.padding.get side
  | .backgroundColor => s.backgroundColor
  | .audioVolume => s.audioVolume
  | .audioSystem => s.audioSystem
  | .fontFamily => s.fontFamily
  | .fontSize => s.fontSize
  | .fontColor => s.fontColor
  | .fontBorderColor => s.fontBorderColor
  | .fontBorderWidth => s.fontBorderWidth
  | .fontWeight => s.fontWeight
  | .fontStyle => s.fontStyle
  | .source => s.source

/-- The fields make up the style. -/
theorem eq_of_read {s t : Style τ π} (h : ∀ f, s.read f = t.read f) : s = t := by
  cases s
  cases t
  simp only [Style.mk.injEq]
  exact ⟨h .objectLength, h .timeMarginStart, h .timeMarginEnd, h .timePaddingStart,
    h .timePaddingEnd, h .order, h .width, h .height, h .layerMode, h .direction,
    Edges.eq_of_get fun side => h (.margin side), Edges.eq_of_get fun side => h (.padding side),
    h .backgroundColor, h .audioVolume, h .audioSystem, h .fontFamily, h .fontSize, h .fontColor,
    h .fontBorderColor, h .fontBorderWidth, h .fontWeight, h .fontStyle, h .source⟩

end Style

namespace Setting

/-- The fields that a setting writes. -/
def targets : Setting τ π → List Field
  | objectLength _ => [.objectLength]
  | timeMargin _ _ => [.timeMarginStart, .timeMarginEnd]
  | timeMarginStart _ => [.timeMarginStart]
  | timeMarginEnd _ => [.timeMarginEnd]
  | timePadding _ _ => [.timePaddingStart, .timePaddingEnd]
  | timePaddingStart _ => [.timePaddingStart]
  | timePaddingEnd _ => [.timePaddingEnd]
  | order _ => [.order]
  | layerMode _ => [.layerMode]
  | direction _ => [.direction]
  | width _ => [.width]
  | height _ => [.height]
  | margin _ => Field.margins
  | marginSide side _ => [.margin side]
  | padding _ => Field.paddings
  | paddingSide side _ => [.padding side]
  | backgroundColor _ => [.backgroundColor]
  | audioVolume _ => [.audioVolume]
  | audioSystem _ => [.audioSystem]
  | fontFamily _ => [.fontFamily]
  | fontSize _ => [.fontSize]
  | fontColor _ => [.fontColor]
  | fontBorder _ _ => [.fontBorderColor, .fontBorderWidth]
  | fontBorderColor _ => [.fontBorderColor]
  | fontBorderWidth _ => [.fontBorderWidth]
  | fontWeight _ => [.fontWeight]
  | fontStyle _ => [.fontStyle]

/-- A setting leaves the same in its fields whatever stands below, and leaves all others as they
are. -/
theorem read_apply (setting : Setting τ π) (s onto : Style τ π) (f : Field) :
    (setting.apply s).read f =
      if f ∈ setting.targets then (setting.apply onto).read f else s.read f := by
  cases setting with
  | marginSide side l =>
      cases f with
      | margin side' => cases side <;> cases side' <;> rfl
      | _ => rfl
  | paddingSide side l =>
      cases f with
      | padding side' => cases side <;> cases side' <;> rfl
      | _ => rfl
  | margin e =>
      cases f with
      | margin side => cases side <;> rfl
      | _ => rfl
  | padding e =>
      cases f with
      | padding side => cases side <;> rfl
      | _ => rfl
  | _ => cases f <;> rfl

end Setting

namespace Grammar

/-- What a grammar accepts, it writes into some fields. -/
def Targets (g : Grammar τ π) (fields : List Field) : Prop :=
  ∀ property value setting, g property value = .ok setting → setting.targets = fields

variable {α : Type} {make : α → Setting τ π} {fields : List Field}

theorem targets_reads (read : String → Except ValueError α) (h : ∀ a, (make a).targets = fields) :
    (reads read make).Targets fields := by
  intro property value setting hs
  unfold reads at hs
  cases hr : read value with
  | error e => rw [hr] at hs; cases hs
  | ok a =>
      rw [hr] at hs
      cases hs
      exact h a

theorem targets_expects (read : String → Option α) (h : ∀ a, (make a).targets = fields) :
    (expects read make).Targets fields := by
  intro property value setting hs
  unfold expects at hs
  split at hs
  · cases hs
    exact h _
  · cases hs

variable [Timescale τ] [PixelCount π]

/-- The grammar of every property writes the fields that the property addresses. -/
theorem forall₂_targets :
    List.Forall₂ (fun p q => p.1 = q.1 ∧ p.2.Targets q.2) (all : List (String × Grammar τ π))
      Field.table := by
  have hname : Targets (fun _ value => .ok (.fontFamily value) : Grammar τ π) [.fontFamily] := by
    intro property value setting hs
    cases hs
    rfl
  unfold all Field.table
  repeat' refine List.Forall₂.cons ⟨rfl, ?_⟩ ?_
  -- a row with a reader, a row that expects a value, or the font that takes any text
  all_goals first
    | with_reducible refine targets_reads _ ?_
    | with_reducible refine targets_expects _ ?_
    | exact hname
    | exact .nil
  all_goals exact fun _ => rfl

end Grammar

/-- In tables with the same names, what is found under a name is related. -/
theorem lookup_of_forall₂ {α β : Type} {R : α → β → Prop} {as : List (String × α)}
    {bs : List (String × β)} (h : List.Forall₂ (fun p q => p.1 = q.1 ∧ R p.2 q.2) as bs)
    {name : String} {a : α} (ha : as.lookup name = some a) :
    ∃ b, bs.lookup name = some b ∧ R a b := by
  induction h with
  | nil => cases ha
  | @cons p q as bs hpq _ ih =>
      obtain ⟨key, a'⟩ := p
      obtain ⟨key', b'⟩ := q
      obtain ⟨rfl, hr⟩ := hpq
      rw [List.lookup_cons] at ha ⊢
      cases hk : name == key with
      | true =>
          rw [hk] at ha
          cases ha
          exact ⟨b', rfl, hr⟩
      | false =>
          rw [hk] at ha
          exact ih ha

namespace Declaration

/-- The fields that a declaration addresses, by its property alone. -/
def fields (d : Declaration) : List Field :=
  (Field.table.lookup d.property).getD []

variable [Timescale τ] [PixelCount π]

variable (τ π) in
/-- Whether a declaration addresses a field and its value meets the grammar of its property. -/
def writes (d : Declaration) (f : Field) : Bool :=
  d.fields.contains f && (d.setting : Except DeclarationError (Setting τ π)).isOk

/-- A declaration that says something writes the fields that it addresses. -/
theorem targets_eq_fields {d : Declaration} {setting : Setting τ π} (h : d.setting = .ok setting) :
    setting.targets = d.fields := by
  unfold Declaration.setting at h
  cases hl : (Grammar.all : List (String × Grammar τ π)).lookup d.property with
  | none => rw [hl] at h; cases h
  | some grammar =>
      obtain ⟨fields, hfields, htargets⟩ := lookup_of_forall₂ Grammar.forall₂_targets hl
      rw [hl] at h
      simp only at h
      split at h
      · next hg =>
          cases h
          rw [htargets _ _ _ hg, Declaration.fields, hfields, Option.getD_some]
      · cases h

end Declaration

namespace Style

variable [Timescale τ] [PixelCount π]

/-- A declaration leaves in the fields that it writes what depends on the declaration alone, and all
others as they are. One that is not valid writes none. -/
theorem read_declare (s onto : Style τ π) (d : Declaration) (f : Field) :
    (s.declare d).read f = if d.writes τ π f then (onto.declare d).read f else s.read f := by
  unfold declare Declaration.writes
  cases h : (d.setting : Except DeclarationError (Setting τ π)) with
  | error e => simp [Except.isOk, Except.toBool]
  | ok setting =>
      rw [setting.read_apply s onto, Declaration.targets_eq_fields h]
      simp [Except.isOk, Except.toBool]

/-- A declaration that writes no field changes nothing. -/
theorem declare_eq_self (s : Style τ π) {d : Declaration} (h : ∀ f, d.writes τ π f = false) :
    s.declare d = s := by
  refine eq_of_read fun f => ?_
  rw [read_declare s s, h f]
  rfl

/-- A list of declarations leaves in a field what the last of them that writes the field leaves
there. -/
theorem read_declareAll (s onto : Style τ π) (ds : List Declaration) (f : Field) :
    (s.declareAll ds).read f =
      match (ds.filter fun d => d.writes τ π f).getLast? with
      | some last => (onto.declare last).read f
      | none => s.read f := by
  induction ds using List.reverseRecOn with
  | nil => rfl
  | append_singleton ds d ih =>
      have hlast : s.declareAll (ds ++ [d]) = (s.declareAll ds).declare d := by
        rw [declareAll, List.foldl_append]
        rfl
      rw [hlast, read_declare _ onto, List.filter_append]
      by_cases hw : d.writes τ π f = true
      · simp [hw]
      · simp [hw, ih]

example :
    let ds : List Declaration := [⟨"margin", "4px 2px"⟩, ⟨"margin-left", "9px"⟩,
      ⟨"margin-top", "wide"⟩, ⟨"margins", "5px"⟩]
    let s : Style Rat Int := Style.initial.declareAll ds
    s.margin.toList.map Length.pixels? = [some 4, some 2, some 4, some 9] := by
  decide +kernel

end Style

/-- In the cascade of a node the last valid declaration for a field decides, first those of the
rules that address the node, in the order of the rules, and then its own; where there is none, the
field keeps what was inherited or set by the element. A declaration that is not valid writes no
field, a valid one no field that it does not address, and what it writes does not depend on what
stands below. -/
theorem Styling.read_declared [Timescale τ] [PixelCount π] (c : Styling τ) (node : Node)
    (ancestors : List Identity) (parent : Option (Style τ π)) (facts : SourceFacts τ π) :
    let ruled := (c.sheet.rules.filter fun r => r.selects (.ofNode node) ancestors).flatMap
      Rule.declarations
    let own := ((node.attribute? "style").map Sheet.parseInline).getD []
    let start : Style τ π := { Styling.base node parent with source := facts }
    (∀ (f : Field) (onto : Style τ π),
      (start.declareAll (c.declarations node ancestors)).read f =
        match ((ruled ++ own).filter fun d => d.writes τ π f).getLast? with
        | some last => (onto.declare last).read f
        | none => start.read f) ∧
    (∀ (d : Declaration) (f : Field) (s onto : Style τ π),
      (s.declare d).read f = if d.writes τ π f then (onto.declare d).read f else s.read f) ∧
    ∀ (d : Declaration) (s : Style τ π), (∀ f, d.writes τ π f = false) → s.declare d = s := by
  intro ruled own start
  have hall : c.declarations node ancestors = ruled ++ own := by
    simp only [declarations, StyleSheet.matching, ruled, own]
    cases node.attribute? "style" <;> rfl
  refine ⟨fun f onto => ?_, fun d f s onto => s.read_declare onto d f,
    fun d s h => s.declare_eq_self h⟩
  rw [hall]
  exact start.read_declareAll onto (ruled ++ own) f

end Montage
