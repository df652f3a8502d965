import Montage.Compile.Film
import Montage.Preview.Pick

/-!
# Stills

A single frame of a scene.

**Input.** A scene, the frame of its document, and the number of a frame.

**Algorithm.** The visible part of the scene is compiled to videos only: media are wound forward to
the instant, and what is visible of a container is laid over its canvas where the film would put it.

**Results.** `Still.ofScene` gives the graph and the pad of the picture.
-/

namespace Montage

/-- A finished graph, and the pad of its picture. -/
structure Still (τ π : Type) where
  graph : Graph (Filter τ π)
  video : Pad
  index : Nat
  second : τ

namespace Still

variable {τ π : Type} [Timescale τ] [PixelCount π]

/-- The picture of a leaf so many seconds into its media; without a time it shows its padding. -/
def leaf (tag : Tag) (kind : MediaKind) (locator : Locator) (style : Style τ π) :
    Option τ → Compile τ π Pad
  | none => Leaf.canvas tag style
  | some offset =>
      match kind, locator with
      | .text, .text s => Leaf.drawing tag style s
      | .text, .path _ => Leaf.drawing tag style ""
      | _, .text _ => throw (.schema (.noMediaPath tag))
      | kind, .path path => do
          let (video, _) ← Compile.source path kind true false
          match video with
          | none => throw (.noPicture tag)
          | some video =>
              let video ←
                if kind = .video then do
                  let wound ← Compile.apply .video (.seek offset) video
                  Compile.apply .video .resetTimestamps wound
                else
                  pure video
              Leaf.pictureOf tag style video

/-- The place of a child and the flow after it; a child on a single layer has a place if it can be
seen. -/
def place (container : Style τ π) (flow : Flow π) (item : Scene τ π) : Option (π × π) × Flow π :=
  if container.order = .parallel ∧ container.layerMode = .single then
    if item.hasVideo then Prod.map some id (flow.place item.style) else (none, flow)
  else
    (some (layeredOffset container item.style), flow)

/-- The places of the children of a container, each with the flow after it. -/
def walk (container : Style τ π) : Flow π → List (Scene τ π) → List (Option (π × π) × Flow π)
  | _, [] => []
  | flow, item :: rest =>
      place container flow item :: walk container (place container flow item).2 rest

/-- The places of the children of a container. -/
def places (container : Style τ π) (flow : Flow π) (siblings : List (Scene τ π)) :
    List (Option (π × π)) :=
  (walk container flow siblings).map Prod.fst

omit [Timescale τ] in
theorem places_cons (container : Style τ π) (flow : Flow π) (item : Scene τ π)
    (rest : List (Scene τ π)) : places container flow (item :: rest) =
      (place container flow item).1 :: places container (place container flow item).2 rest :=
  rfl

/-- The counts that are found while the children of a container are placed. -/
def placing (container : Style τ π) (flow : Flow π) (siblings : List (Scene τ π)) : List π :=
  flow.position :: (walk container flow siblings).flatMap fun (place, flow) =>
    flow.position :: (place.map fun (x, y) => [x, y]).getD []

mutual

/-- The picture of the visible part of a scene. -/
def pick : Pick τ π → Compile τ π Pad
  | .leaf tag kind locator style offset => leaf tag kind locator style offset
  | .container tag style siblings items => do
      let base ← Leaf.canvas tag style
      Compile.counted (placing style (Flow.start style) siblings)
      layers (places style (Flow.start style) siblings) base items

/-- Lays the visible children of a container over its canvas. -/
def layers (places : List (Option (π × π))) (base : Pad) :
    List (Nat × Pick τ π) → Compile τ π Pad
  | [] => pure base
  | (index, p) :: rest =>
      match places[index]?.join with
      | none => layers places base rest
      | some (x, y) => do
          let layer ← pick p
          let base ← Compile.join .video [base, layer] (.overlay x y .pass)
          layers places base rest

end

/-- The visible part of a document at a time from its start. -/
def visible (root : Scene τ π) (second : τ) : Option (Pick τ π) :=
  let margin := root.style.timeMarginStart.secondsOrZero
  if second < margin then
    none
  else
    root.pick (second - margin - root.style.timePaddingStart.secondsOrZero)

/-- The picture of a document, on the screen. -/
def picture (root : Scene τ π) (resolution : Resolution) (second : τ) : Compile τ π Pad := do
  let style := root.style
  let content ← (visible root second).mapM pick
  let base ← Film.screen root.tag resolution style.backgroundColor
  match content with
  | none => pure base
  | some content =>
      let x := style.margin.left.pixelsOr 0
      let y := style.margin.top.pixelsOr 0
      Compile.join .video [base, content] (.overlay x y .pass)

/-- The second at which a frame is shown. -/
def secondOf (frame : Frame τ) (index : Nat) : τ :=
  Timescale.ofNat index / frame.fps

/-- The total of a document that a second lies beyond. -/
def overrun? (root : Scene τ π) (second : τ) : Option τ :=
  root.style.footprintLength.seconds?.filter fun total => decide (total < second)

/-- The still of a frame. -/
def ofScene (root : Scene τ π) (frame : Frame τ) (index : Nat) : Except Failure (Still τ π) :=
  let second := secondOf frame index
  match overrun? root second with
  | some total => .error (.pastEnd index (Timescale.exact second) (Timescale.exact total))
  | none => do
      let (video, w) ← picture root frame.resolution second (.start frame 48000)
      .ok ⟨w.finish, video, index, second⟩

end Still
end Montage
