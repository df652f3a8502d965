import Montage.Graph.Basic

/-!
# The text of a graph

How a filter graph is written for the program that runs it.

**Input.** A graph of filter invocations: names with positional and named options.

**Algorithm.** An invocation is written as `name=key=value:…`. Values are escaped twice, for the
reader of options and for the reader of graphs. Pads stand in square brackets around the filter, and
filters are separated by semicolons.

**Results.** `Graph.text` is the graph on one line, `Graph.lines` with a filter a line.
-/

namespace Montage

/-- A filter as it is written: its name, and its options with their names where they have one. -/
structure Invocation where
  name : String
  options : List (Option String × String)
  deriving Repr, DecidableEq

namespace Invocation

/-- The value of a named option. -/
def get? (i : Invocation) (key : String) : Option String :=
  (i.options.find? fun o => o.1 == some key).map Prod.snd

/-- A backslash in front of the characters that `special` names. -/
def escapeWith (special : List Char) (cs : List Char) : List Char :=
  cs.flatMap fun c => if special.contains c then ['\\', c] else [c]

/-- The characters that mean something to the reader of options. -/
def optionSpecial : List Char :=
  ['\\', '\'', ':']

/-- The characters that mean something to the reader of graphs. -/
def graphSpecial : List Char :=
  ['\\', '\'', '[', ']', ',', ';']

/-- A value as it is written. -/
def escape (value : String) : String :=
  String.ofList (escapeWith graphSpecial (escapeWith optionSpecial value.toList))

/-- An option as it is written. -/
def optionText (o : Option String × String) : String :=
  match o.1 with
  | some key => key ++ "=" ++ escape o.2
  | none => escape o.2

/-- The filter as it is written. -/
def text (i : Invocation) : String :=
  if i.options.isEmpty then
    i.name
  else
    i.name ++ "=" ++ String.intercalate ":" (i.options.map optionText)

end Invocation

namespace Pad

/-- A pad as it is written next to a filter. -/
def bracketed (p : Pad) : String :=
  "[" ++ p.label ++ "]"

end Pad

namespace Stage

/-- A filter with its pads as it is written. -/
def text (s : Stage Invocation) : String :=
  String.join (s.inputs.map Pad.bracketed) ++ s.filter.text
    ++ String.join (s.outputs.map Pad.bracketed)

end Stage

namespace Graph

/-- The graph on one line. -/
def text (g : Graph Invocation) : String :=
  String.intercalate ";" (g.stages.map Stage.text)

/-- The graph with a filter a line. -/
def lines (g : Graph Invocation) : String :=
  String.intercalate ";\n" (g.stages.map Stage.text)

end Graph

/-- The name of a pad where streams are chosen for the output: streams of input files stand without
brackets. -/
def mapLabel (label : String) : String :=
  if label.toList.contains ':' then label else "[" ++ label ++ "]"

end Montage
