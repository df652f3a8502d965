/-!
# Values that cannot be read

The ways in which the text of a declared value can fail its grammar.

**Input.** The text as it was written.

**Algorithm.** One constructor per grammar, and one function for the wording.

**Results.** `ValueError.message` is the text shown to the author of a document.
-/

namespace Montage

/-- A declared value that fails its grammar. -/
inductive ValueError where
  | length (text : String)
  | span (text : String)
  | color (text : String)
  | property (name value : String)
  deriving Repr, DecidableEq

namespace ValueError

/-- The wording of an error. -/
def message : ValueError → String
  | length text => s!"invalid graphic value `{text}`"
  | span text => s!"invalid time value `{text}`"
  | color text => s!"invalid color `{text}`"
  | property name value => s!"invalid value `{value}` for `{name}`"

end ValueError
end Montage
