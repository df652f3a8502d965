import Montage.Scene.Basic

/-!
# Outlines

A scene as indented lines, for the eye.

**Input.** A scene.

**Algorithm.** A line a node, indented by its depth.

**Results.** `Scene.outline` gives the lines in the order of the document.
-/

namespace Montage
namespace Scene

variable {π : Type} [PixelCount π]

/-- Which streams a node bears, in words. -/
def streamText (s : Scene Float π) : String :=
  match s.hasVideo, s.hasAudio with
  | true, true => "video+audio"
  | true, false => "video"
  | false, true => "audio"
  | false, false => "-"

/-- The line of a node. -/
def outlineLine (depth : Nat) (s : Scene Float π) : String :=
  let style := s.style
  String.ofList (List.replicate (2 * depth) ' ')
    ++ s!"<{s.tag.name}> {style.width.text} x {style.height.text}, "
    ++ s!"length {style.objectLength.text}, {s.streamText}"

mutual

/-- The lines of a node at a depth and of all nodes below it. -/
def outlineAt (depth : Nat) : Scene Float π → List String
  | container tag style items =>
      outlineLine depth (container tag style items) :: outlineAll (depth + 1) items
  | leaf tag kind locator style => [outlineLine depth (leaf tag kind locator style)]

/-- The lines of nodes in order. -/
def outlineAll (depth : Nat) : List (Scene Float π) → List String
  | [] => []
  | s :: rest => s.outlineAt depth ++ outlineAll depth rest

end

/-- The lines of a scene. -/
def outline (s : Scene Float π) : List String :=
  s.outlineAt 0

end Scene
end Montage
