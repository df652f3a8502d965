import Montage.Cli.Run

/-!
# The executable

The machine that the program runs on, as a host.

**Input.** The arguments of the program.

**Algorithm.** Every service is that of the machine. Other programs cannot be started from here: they
are looked up, and running one is refused.

**Results.** The exit code of the program.
-/

namespace Montage
namespace Machine

/-- What an action gives, or what is said when it fails. -/
def attempt {α : Type} (action : IO α) : IO (Except String α) := do
  match ← action.toBaseIO with
  | .ok a => pure (.ok a)
  | .error e => pure (.error (toString e))

/-- Whether there is something at a path. -/
def isThere (p : Path) : IO Bool := do
  ((← IO.currentDir) / p.text).pathExists

/-- Whether there is a file at a path. -/
def isFile (p : Path) : IO Bool := do
  let there ← isThere p
  let directory ← ((← IO.currentDir) / p.text).isDir
  pure (there && !directory)

/-- Whether one of the directories for programs holds a file of a name. -/
def isCommand (name : String) : IO Bool := do
  let directories := ((← IO.getEnv "PATH").getD "").toList
  let places := (Text.splitAll ':' directories).map fun d => (⟨String.ofList d⟩ : Path).join name
  places.anyM isFile

/-- Opens the log, which is written at its end. -/
def openLog (s : LogSettings) : IO (Except String Unit) :=
  match s.file with
  | none => pure (.ok ())
  | some file => attempt do
      let _ ← IO.FS.Handle.mk file.text .append
      pure ()

end Machine

instance : Host IO where
  isThere := Machine.isThere
  isFile := Machine.isFile
  readText p := Machine.attempt (IO.FS.readFile p.text)
  writeText p s := Machine.attempt (IO.FS.writeFile p.text s)
  createDirectories p := Machine.attempt (IO.FS.createDirAll p.text)
  openLog := Machine.openLog
  lookup? name := IO.getEnv name
  isCommand := Machine.isCommand
  run _ _ := pure (.error "Operation not supported (os error 95)")
  stamp := do pure ((← IO.monoMsNow).repr ++ "ms")
  elapsed := pure 0.0
  print s := do (← IO.getStdout).putStr s
  warn s := do (← IO.getStderr).putStr s

end Montage

/-- Runs the program on this machine. -/
def main (args : List String) : IO UInt32 := do
  let code ← (Montage.Cli.respond args : IO Nat)
  pure code.toUInt32
