import Montage.Config
import Montage.Failure

/-!
# Hosts

What the library needs from the machine that it runs on: files, variables, other programs, and
places to write to.

**Input.** A monad in which the machine is used.

**Algorithm.** A class with one operation a service. An operation that the machine can refuse answers
with the reason.

**Results.** Everything above this module is written for any host.
-/

namespace Montage

/-- The signals that end a program. -/
inductive Signal where
  | hangup
  | interrupt
  | quit
  | abort
  | kill
  | firstUser
  | segmentation
  | secondUser
  | pipe
  | alarm
  | terminate
  deriving Repr, DecidableEq

namespace Signal

/-- All signals. -/
def all : List Signal :=
  [hangup, interrupt, quit, abort, kill, firstUser, segmentation, secondUser, pipe, alarm,
    terminate]

/-- The number of a signal. -/
def number : Signal → Nat
  | hangup => 1
  | interrupt => 2
  | quit => 3
  | abort => 6
  | kill => 9
  | firstUser => 10
  | segmentation => 11
  | secondUser => 12
  | pipe => 13
  | alarm => 14
  | terminate => 15

/-- The name of a signal. -/
def name : Signal → String
  | hangup => "HUP"
  | interrupt => "INT"
  | quit => "QUIT"
  | abort => "ABRT"
  | kill => "KILL"
  | firstUser => "USR1"
  | segmentation => "SEGV"
  | secondUser => "USR2"
  | pipe => "PIPE"
  | alarm => "ALRM"
  | terminate => "TERM"

/-- The signal of a number or of a name, which may begin with `SIG`. -/
def ofText? (s : String) : Option Signal :=
  all.find? fun signal => s = signal.number.repr || s = signal.name || s = "SIG" ++ signal.name

end Signal

/-- How a program ended: by itself with a code, or by a signal. -/
inductive Ending where
  | exited (code : Nat)
  | stopped (signal : Signal)
  deriving Repr, DecidableEq

namespace Ending

/-- The code of an ending; a shell counts signals from 128. -/
def code : Ending → Nat
  | exited n => n
  | stopped signal => 128 + signal.number

/-- The wording of an ending. -/
def text : Ending → String
  | exited n => "exit status: " ++ n.repr
  | stopped signal => s!"signal: {signal.number.repr} (SIG{signal.name})"

end Ending

/-- How a program ended, and what it wrote to its output and as errors. -/
structure Exit where
  ending : Ending
  output : String
  errors : String
  deriving Repr, DecidableEq

namespace Exit

/-- Whether a program ended well. -/
def isSuccess (e : Exit) : Bool :=
  e.ending == .exited 0

/-- The wording of the ending. -/
def status (e : Exit) : String :=
  e.ending.text

/-- What a program wrote as errors, without blanks around it. -/
def complaint (e : Exit) : String :=
  String.ofList (Text.trim e.errors.toList)

end Exit

/-- A machine with files, variables and programs. -/
class Host (m : Type → Type) where
  /-- Whether there is something at a path. -/
  isThere : Path → m Bool
  /-- Whether there is a file at a path. -/
  isFile : Path → m Bool
  /-- The text of a file. -/
  readText : Path → m (Except String String)
  /-- Replaces the text of a file. -/
  writeText : Path → String → m (Except String Unit)
  /-- Creates a directory and those above it. -/
  createDirectories : Path → m (Except String Unit)
  /-- Opens the log. -/
  openLog : LogSettings → m (Except String Unit)
  /-- The value of a variable. -/
  lookup? : String → m (Option String)
  /-- Whether a shell knows a command. -/
  isCommand : String → m Bool
  /-- Runs a program with arguments to its end. -/
  run : String → List String → m (Except String Exit)
  /-- The date and time. -/
  stamp : m String
  /-- The seconds since the program that was run last was started. -/
  elapsed : m Float
  /-- Writes to the output. -/
  print : String → m Unit
  /-- Writes to the errors. -/
  warn : String → m Unit

namespace Host

variable {m : Type → Type} [Monad m] [Host m]

/-- Whether a program can be found: a path by its file, a name by the shell. -/
def isAvailable (binary : String) : m Bool :=
  if binary.toList.contains '/' then isFile ⟨binary⟩ else isCommand binary

/-- A failure of the machine as a failure of the document. -/
def attempt {α : Type} (action : m (Except String α)) : ExceptT Failure m α :=
  ExceptT.mk ((Except.mapError Failure.system) <$> action)

end Host
end Montage
