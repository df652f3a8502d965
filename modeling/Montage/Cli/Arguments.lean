import Montage.Decimal.Literal
import Montage.Path

/-!
# Command lines

What the program is asked to do.

**Input.** The arguments of the program.

**Algorithm.** A command is named by the first argument that is no option. Every command has options,
with or without a value, under a name and perhaps a letter, and takes a fixed number of further
arguments. Reading stops at the first argument that does not fit.

**Results.** `CommandLine.parse` gives the request, or why there is none.
-/

namespace Montage
namespace Cli

/-- What is asked of the program. -/
inductive Request where
  | render (document : Path) (output : Option Path) (format : Option String)
      (overwrite dryRun : Bool)
  | preview (document : Path) (frame : Nat) (output : Path)
  | inspect (document : Path) (json : Bool)
  | check
  deriving Repr, DecidableEq

/-- Why there is no request: the author asks for help or for the version, or misuses the
program. -/
inductive Halt where
  | help
  | version
  | misuse
  deriving Repr, DecidableEq

/-- An option. One that takes a value tells which values it accepts. -/
structure Switch where
  name : String
  letter : Option Char
  accepts : Option (String → Bool)

/-- What a command admits: its options, and how many further arguments. Before a command is named,
the version can be asked for. -/
structure Usage where
  switches : List Switch
  places : Nat
  beforeCommand : Bool

/-- What has been found on a command line: options with their values, and further arguments. -/
structure Found where
  values : List (String × String)
  places : List String
  deriving Repr, DecidableEq

namespace Found

/-- Nothing has been found. -/
def nothing : Found :=
  ⟨[], []⟩

/-- Whether an option is given. -/
def has (f : Found) (name : String) : Bool :=
  (f.values.lookup name).isSome

/-- The value of an option. -/
def value? (f : Found) (name : String) : Option String :=
  f.values.lookup name

/-- Takes note of an option; none may come twice. -/
def note (f : Found) (name value : String) : Except Halt Found :=
  if f.has name then .error .misuse else .ok { f with values := f.values ++ [(name, value)] }

end Found

/-- Whether an argument looks like an option. -/
def looksLikeOption (s : String) : Bool :=
  match s.toList with
  | ['-'] => false
  | '-' :: _ => true
  | _ => false

namespace Switch

/-- Takes note of an option with a value. -/
def give (s : Switch) (f : Found) (value : String) : Except Halt Found :=
  match s.accepts with
  | some accepts => if accepts value then f.note s.name value else .error .misuse
  | none => .error .misuse

/-- Takes note of an option that has no value attached: it takes the next argument if it needs one.
The answer tells whether it did. -/
def takeNext (s : Switch) (f : Found) (next : Option String) : Except Halt (Found × Bool) :=
  match s.accepts, next with
  | none, _ => (f.note s.name "").map fun f => (f, false)
  | some _, some value =>
      if looksLikeOption value then .error .misuse else (s.give f value).map fun f => (f, true)
  | some _, none => .error .misuse

end Switch

namespace Usage

/-- Reads a name after two hyphens, perhaps with a value attached. -/
def readName (u : Usage) (f : Found) (cs : List Char) (next : Option String) :
    Except Halt (Found × Bool) :=
  let (name, value) := match Text.splitFirst? '=' cs with
    | some (name, value) => (String.ofList name, some (String.ofList value))
    | none => (String.ofList cs, none)
  if name = "help" ∧ value = none then
    .error .help
  else if name = "version" ∧ value = none ∧ u.beforeCommand then
    .error .version
  else
    match u.switches.find? fun s => s.name == name, value with
    | none, _ => .error .misuse
    | some s, some value => (s.give f value).map fun f => (f, false)
    | some s, none => s.takeNext f next

/-- Reads letters after a hyphen. What follows the letter of an option with a value is its value. -/
def readLetters (u : Usage) (f : Found) (next : Option String) :
    List Char → Except Halt (Found × Bool)
  | [] => .ok (f, false)
  | c :: cs =>
      if c = 'h' then
        .error .help
      else if c = 'V' ∧ u.beforeCommand then
        .error .version
      else
        match u.switches.find? fun s => s.letter == some c with
        | none => .error .misuse
        | some s =>
            if s.accepts.isSome && !cs.isEmpty then
              let value := if cs.head? = some '=' then cs.drop 1 else cs
              (s.give f (String.ofList value)).map fun f => (f, false)
            else
              match s.takeNext f next with
              | .error halt => .error halt
              | .ok (f, true) => .ok (f, true)
              | .ok (f, false) => readLetters u f next cs

/-- Reads an argument that is no option. It has to be a nonempty path. -/
def readPlace (u : Usage) (f : Found) (s : String) : Except Halt Found :=
  if f.places.length < u.places ∧ s ≠ "" then
    .ok { f with places := f.places ++ [s] }
  else
    .error .misuse

/-- Reads arguments that are no options, whatever they look like. -/
def readPlaces (u : Usage) (f : Found) (args : List String) : Except Halt Found :=
  args.foldlM u.readPlace f

/-- Reads an option, given the argument after it; the answer tells whether that was used up. -/
def readOption (u : Usage) (f : Found) (s : String) (next : Option String) :
    Except Halt (Found × Bool) :=
  match s.toList with
  | '-' :: '-' :: cs => u.readName f cs next
  | '-' :: cs => u.readLetters f next cs
  | _ => .error .misuse

/-- Reads options up to the first argument that is none; before a command, this is the command. The
answer is what was found and what is left. -/
def readOptions (u : Usage) (f : Found) : List String → Except Halt (Found × List String)
  | [] => .ok (f, [])
  | [s] =>
      if looksLikeOption s && s != "--" then
        (u.readOption f s none).map fun (f, _) => (f, [])
      else
        .ok (f, [s])
  | s :: next :: rest =>
      if looksLikeOption s && s != "--" then
        match u.readOption f s (some next) with
        | .error halt => .error halt
        | .ok (f, true) => readOptions u f rest
        | .ok (f, false) => readOptions u f (next :: rest)
      else
        .ok (f, s :: next :: rest)

/-- Reads all arguments of a command; the first argument bounds their number. After two hyphens
nothing is an option. -/
def readWithin (u : Usage) : Nat → Found → List String → Except Halt Found
  | 0, f, _ => .ok f
  | fuel + 1, f, args => do
      match ← u.readOptions f args with
      | (f, []) => .ok f
      | (f, "--" :: rest) => u.readPlaces f rest
      | (f, s :: rest) => do
          let f ← u.readPlace f s
          readWithin u fuel f rest

/-- Reads all arguments of a command. -/
def read (u : Usage) (args : List String) : Except Halt Found :=
  u.readWithin (args.length + 1) .nothing args

end Usage

/-- Paths may not be empty. -/
def isPath (s : String) : Bool :=
  s ≠ ""

/-- Frames are counted by 64 bits. -/
def frameIndex? (s : String) : Option Nat :=
  Decimal.parseCount? UInt64.size s.toList

/-- The options of every command. -/
def commonSwitches : List Switch :=
  [⟨"verbose", some 'v', none⟩, ⟨"config", none, some isPath⟩]

/-- A command: what it admits, and the request it makes of what was found. -/
structure Command where
  usage : Usage
  request? : Found → Option Request

/-- A command with options of its own and a number of further arguments. -/
def command (switches : List Switch) (places : Nat) (request? : Found → Option Request) : Command :=
  ⟨⟨commonSwitches ++ switches, places, false⟩, request?⟩

/-- The commands by their names. -/
def commands : List (String × Command) :=
  [("render", command
      [⟨"output", some 'o', some isPath⟩, ⟨"format", none, some fun _ => true⟩,
        ⟨"overwrite", some 'y', none⟩, ⟨"dry-run", none, none⟩] 1
      fun f => f.places.head?.map fun document =>
        .render ⟨document⟩ ((f.value? "output").map Path.mk) (f.value? "format")
          (f.has "overwrite") (f.has "dry-run")),
    ("preview", command
      [⟨"frame", some 'f', some fun s => (frameIndex? s).isSome⟩,
        ⟨"output", some 'o', some isPath⟩] 1
      fun f => f.places.head?.map fun document =>
        .preview ⟨document⟩ (((f.value? "frame").bind frameIndex?).getD 0)
          ⟨(f.value? "output").getD "preview.png"⟩),
    ("inspect", command [⟨"json", none, none⟩] 1
      fun f => f.places.head?.map fun document => .inspect ⟨document⟩ (f.has "json")),
    ("check", command [] 0 fun _ => some .check)]

/-- A command line: the options of the program, and the request. -/
structure CommandLine where
  verbose : Bool
  config : Option Path
  request : Request
  deriving Repr, DecidableEq

namespace CommandLine

/-- The usage before a command is named. -/
def usage : Usage :=
  ⟨commonSwitches, 0, true⟩

/-- The command line of a command, whose own options win over those before it. -/
def ofFound (before after : Found) (request : Request) : CommandLine where
  verbose := before.has "verbose" || after.has "verbose"
  config := ((after.value? "config").or (before.value? "config")).map Path.mk
  request := request

/-- Reads the command that asks for help, perhaps on another command. -/
def helpOn : List String → Halt
  | [] => .help
  | [name] => if (commands.lookup name).isSome ∨ name = "help" then .help else .misuse
  | _ => .misuse

/-- Reads a command line. -/
def parse (args : List String) : Except Halt CommandLine := do
  match ← usage.readOptions .nothing args with
  | (_, []) => .error .misuse
  | (before, name :: rest) =>
      match commands.lookup name with
      | some c => do
          let after ← c.usage.read rest
          match c.request? after with
          | some request => .ok (ofFound before after request)
          | none => .error .misuse
      | none => .error (if name = "help" then helpOn rest else .misuse)

end CommandLine
end Cli
end Montage
