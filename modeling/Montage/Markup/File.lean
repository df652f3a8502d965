import Montage.Host
import Montage.Markup.Document

/-!
# Document files

**Input.** The path of a document, or its text and the directory that its paths start from.

**Algorithm.** The files of style sheets that the document names are read first, then the document
is read with their texts at hand.

**Results.** `Document.ofFile` gives the document, or the first failure.
-/

namespace Montage
namespace Document

variable {τ : Type} [Timescale τ]

/-- Texts of files by their paths. -/
def fileTexts (table : List (Path × Except String String)) : FileTexts :=
  fun path => (table.lookup path).getD (.error "")

variable {m : Type → Type} [Monad m] [Host m]

/-- The texts of files. -/
def readAll (paths : List Path) : m (List (Path × Except String String)) :=
  paths.mapM fun path => do
    let text ← Host.readText path
    pure (path, text)

/-- Reads the text of a document with the sheets that it names. -/
def ofText (baseDir : Path) (text : String) : ExceptT Failure m (Document τ) := do
  match Markup.Element.ofText text with
  | .error fault => throw (.schema (.tree fault))
  | .ok root => do
      let table ← (readAll (sheetFiles baseDir root) : m (List (Path × Except String String)))
      ExceptT.mk (pure (ofElement (fileTexts table) baseDir root))

/-- Reads a document file. -/
def ofFile (path : Path) : ExceptT Failure m (Document τ) := do
  let there ← (Host.isThere path : m Bool)
  if there then do
    let text ← Host.attempt (Host.readText path)
    ofText (path.parent?.getD ⟨"."⟩) text
  else
    throw (.fileNotFound path)

end Document
end Montage
