import Montage.Scene.Basic

/-!
# What is visible at an instant

**Input.** A scene and a time from the start of its object.

**Algorithm.** The scene is pruned to what can be seen. Of a sequence the one child is kept whose
padded object covers the instant; of a parallel every such child. The time is handed down as seconds
into each child's object.

**Results.** `Scene.pick` gives the visible part of a scene, with the seconds into the media of every
leaf that shows more than its padding.
-/

namespace Montage

/-- The visible part of a scene. Children keep their place among all children of the container. -/
inductive Pick (τ π : Type) where
  | container (tag : Tag) (style : Style τ π) (siblings : List (Scene τ π))
      (items : List (Nat × Pick τ π))
  | leaf (tag : Tag) (kind : MediaKind) (locator : Locator) (style : Style τ π)
      (offset : Option τ)

variable {τ π : Type} [Timescale τ]

namespace Style

/-- Whether a time from the start of the object lies inside it. -/
def covers (s : Style τ π) (t : τ) : Bool :=
  decide (0 ≤ t) &&
    match s.objectLength.seconds? with
    | some length => decide (t < length)
    | none => true

/-- Whether a time lies before the end of a padded object that starts at `start`; an open object
ends after every real time. -/
def endsAfter (s : Style τ π) (start t : τ) : Bool :=
  match s.paddedLength.seconds? with
  | some length => decide (t < start + length)
  | none => (Timescale.exact t).isFinite

end Style

mutual

/-- The visible part of a scene at a time from the start of its object. -/
def pickScene : Scene τ π → τ → Option (Pick τ π)
  | .leaf tag kind locator style, t =>
      if kind.hasVideo then
        some (.leaf tag kind locator style (if style.covers t then some t else none))
      else
        none
  | .container tag style items, t =>
      if Scene.anyVideo items then
        let picked :=
          if style.covers t then
            match style.order with
            | .sequence => pickSequence 0 0 0 items t
            | .parallel => pickParallel 0 items t
          else
            []
        some (.container tag style items picked)
      else
        none

/-- The one child of a sequence that covers a time. The arguments are the place of the first child,
where the child before it ended, and the margin that is still to be met. -/
def pickSequence (index : Nat) (start pending : τ) :
    List (Scene τ π) → τ → List (Nat × Pick τ π)
  | [], _ => []
  | item :: rest, t =>
      let style := item.style
      let itemStart := start + Timescale.longer style.timeMarginStart.secondsOrZero pending
      if t < itemStart then
        []
      else if style.endsAfter itemStart t then
        match pickScene item (t - (itemStart + style.timePaddingStart.secondsOrZero)) with
        | some p => [(index, p)]
        | none => []
      else
        match style.paddedLength.seconds? with
        | some length =>
            pickSequence (index + 1) (itemStart + length) style.timeMarginEnd.secondsOrZero rest t
        | none => []

/-- The children of a parallel that cover a time. -/
def pickParallel (index : Nat) : List (Scene τ π) → τ → List (Nat × Pick τ π)
  | [], _ => []
  | item :: rest, t =>
      let style := item.style
      let start := style.timeMarginStart.secondsOrZero
      let others := pickParallel (index + 1) rest t
      let active := decide (start ≤ t) &&
        match style.paddedLength.seconds? with
        | some length => decide (t < start + length)
        | none => true
      if active then
        match pickScene item (t - start - style.timePaddingStart.secondsOrZero) with
        | some p => (index, p) :: others
        | none => others
      else
        others

end

/-- The visible part of a scene at a time from the start of its object. -/
def Scene.pick (s : Scene τ π) (t : τ) : Option (Pick τ π) :=
  pickScene s t

end Montage
