import Montage.Markup.Document
import Montage.Scene.Extent
import Montage.Style.Cascade

/-!
# Building scenes

**Input.** A document and a probe for its media.

**Algorithm.** A single walk over the content: each node is styled before its children, and a
container is settled after them. A calculation that has no result stops the walk at its node.

**Results.** `Document.scene` gives the scene of a document, or the first failure.
-/

namespace Montage

variable {τ π : Type} [Timescale τ] [PixelCount π]

/-- The node itself, unless finding its style has stopped the program. -/
def Scene.found (s : Scene τ π) : Probing τ (Scene τ π) :=
  match s.style.mishap? with
  | some calculation => throw (.mishap calculation)
  | none => pure s

namespace Node

/-- Where the media of a node are found. Texts and containers have none. -/
def source? (baseDir : Path) (n : Node) : Option Path :=
  match n.tag.kind? with
  | none => none
  | some .text => none
  | some _ => (n.attribute? "src").map baseDir.join

/-- What a leaf shows. -/
def locator (n : Node) (source : Option Path) : Locator :=
  match source with
  | some path => .path path
  | none => .text (n.text.getD "")

end Node

mutual

/-- The scene of a node, whose ancestors are given from the parent outward. -/
def sceneOfNode (c : Styling τ) (baseDir : Path) (ancestors : List Identity)
    (parent : Option (Style τ π)) : Node → Probing τ (Scene τ π)
  | ⟨tag, attributes, children, text⟩ => do
      let node : Node := ⟨tag, attributes, children, text⟩
      let source := node.source? baseDir
      let style ← c.style node ancestors parent source
      match tag.kind? with
      | some kind => (Scene.leaf tag kind (node.locator source) style.fitSource).found
      | none => do
          let items ← scenesOfNodes c baseDir (.ofNode node :: ancestors) style children
          (Scene.container tag style items).settle.found

/-- The scenes of the children of a node. -/
def scenesOfNodes (c : Styling τ) (baseDir : Path) (ancestors : List Identity)
    (parent : Style τ π) : List Node → Probing τ (List (Scene τ π))
  | [] => pure []
  | n :: ns => do
      let first ← sceneOfNode c baseDir ancestors (some parent) n
      let others ← scenesOfNodes c baseDir ancestors parent ns
      pure (first :: others)

end

namespace Document

/-- The scene of a document. -/
def scene (d : Document τ) (probe : Probe τ) : Except Failure (Scene τ π) :=
  let c : Styling τ := ⟨d.sheet, d.frame, probe⟩
  (sceneOfNode c d.baseDir [] none d.root).run ProbeCache.empty |>.run.1

end Document
end Montage
