import Montage.Path

/-!
# Filter graphs

A graph of filters that are joined at their pads. Input files offer streams; every filter reads some
pads and offers new ones.

**Input.** Filters of any kind, and the pads that they read.

**Algorithm.** A graph only grows: a filter is added at its end, and its output pads are numbered by
one counter.

**Results.** A pad that is offered anew has a number that no earlier pad has (`Graph.push`).
-/

namespace Montage

/-- What flows through a pad. -/
inductive StreamKind where
  | video
  | audio
  deriving Repr, DecidableEq

namespace StreamKind

/-- The letter that stands for a kind of stream. -/
def letter : StreamKind → Char
  | video => 'v'
  | audio => 'a'

end StreamKind

/-- A place where filters are joined: the first stream of a kind in an input file, or an output of a
filter. -/
inductive Pad where
  | input (index : Nat) (kind : StreamKind)
  | output (kind : StreamKind) (id : Nat)
  deriving Repr, DecidableEq

namespace Pad

/-- The kind of stream at a pad. -/
def kind : Pad → StreamKind
  | input _ kind => kind
  | output kind _ => kind

/-- The name of a pad in the text of a graph. -/
def label : Pad → String
  | input index kind => index.repr ++ ":" ++ String.ofList [kind.letter] ++ ":0"
  | output kind id => String.ofList [kind.letter] ++ id.repr

end Pad

/-- An input file and the options before it. -/
structure Input where
  options : List String
  path : Path
  deriving Repr, DecidableEq

namespace Input

/-- The arguments of a command for an input. -/
def arguments (i : Input) : List String :=
  i.options ++ ["-i", i.path.text]

end Input

/-- A filter in its place: the pads it reads and the pads it offers. -/
structure Stage (φ : Type) where
  inputs : List Pad
  filter : φ
  outputs : List Pad
  deriving Repr, DecidableEq

/-- Input files, the filters in the order in which they were added, and the next free number. -/
structure Graph (φ : Type) where
  inputs : List Input
  stages : List (Stage φ)
  next : Nat

namespace Graph

variable {φ ψ : Type}

/-- The graph without anything. -/
def empty : Graph φ :=
  ⟨[], [], 0⟩

/-- The number of filters. -/
def size (g : Graph φ) : Nat :=
  g.stages.length

/-- The graph with other filters in the same places. -/
def map (f : φ → ψ) (g : Graph φ) : Graph ψ where
  inputs := g.inputs
  stages := g.stages.map fun s => ⟨s.inputs, f s.filter, s.outputs⟩
  next := g.next

/-- Adds an input file; the answer is its place. -/
def addInput (g : Graph φ) (i : Input) : Nat × Graph φ :=
  (g.inputs.length, { g with inputs := g.inputs ++ [i] })

/-- New output pads of the given kinds, numbered from `next` on. -/
def freshPads (next : Nat) : List StreamKind → List Pad
  | [] => []
  | kind :: kinds => .output kind next :: freshPads (next + 1) kinds

/-- Adds a filter that reads pads and offers new ones of the given kinds. -/
def push (g : Graph φ) (inputs : List Pad) (filter : φ) (kinds : List StreamKind) :
    List Pad × Graph φ :=
  let outputs := freshPads g.next kinds
  (outputs,
    { g with
      stages := g.stages ++ [⟨inputs, filter, outputs⟩]
      next := g.next + kinds.length })

/-- Adds a filter that offers one pad. -/
def join (g : Graph φ) (kind : StreamKind) (inputs : List Pad) (filter : φ) : Pad × Graph φ :=
  (.output kind g.next, (g.push inputs filter [kind]).2)

/-- Adds a filter that offers two pads. -/
def fork (g : Graph φ) (first second : StreamKind) (inputs : List Pad) (filter : φ) :
    (Pad × Pad) × Graph φ :=
  ((.output first g.next, .output second (g.next + 1)), (g.push inputs filter [first, second]).2)

/-- Adds a filter that offers nothing. -/
def sink (g : Graph φ) (input : Pad) (filter : φ) : Graph φ :=
  (g.push [input] filter []).2

theorem push_join (g : Graph φ) (kind : StreamKind) (inputs : List Pad) (filter : φ) :
    g.push inputs filter [kind] = ([(g.join kind inputs filter).1], (g.join kind inputs filter).2) :=
  rfl

theorem freshPads_ge (next : Nat) (kinds : List StreamKind) :
    ∀ p ∈ freshPads next kinds, ∃ kind id, p = .output kind id ∧ next ≤ id := by
  induction kinds generalizing next with
  | nil => simp [freshPads]
  | cons kind kinds ih =>
      intro p hp
      rcases List.mem_cons.1 hp with rfl | hp
      · exact ⟨kind, next, rfl, Nat.le_refl _⟩
      · obtain ⟨k, id, rfl, h⟩ := ih (next + 1) p hp
        exact ⟨k, id, rfl, by omega⟩

end Graph
end Montage
