import Montage.Output.Progress
import Montage.Rehearsal.Shell

/-!
# Rehearsals

A machine that is a value: what a rendering would do can be tried, and reasoned about, without
touching a real one.

**Input.** Files, some of them scripts, and variables.

**Algorithm.** Every service of a host is a function on the state of the machine. Programs are the
scripts among the files and a few commands.

**Results.** `Rehearsal` is a host.
-/

namespace Montage
namespace Rehearsal

/-- The state of a rehearsal; what was written is kept with the last first. -/
structure Machine where
  files : Files
  settings : List (String × String)
  printed : List String
  warned : List String
  told : List Progress

namespace Machine

/-- A machine with nothing but a shell. -/
def bare : Machine where
  files :=
    ((Files.mk []).addFile ⟨"/bin/sh"⟩ "#!").addFile ⟨"/dev/null"⟩ ""
      |>.addDirectory ⟨"/tmp"⟩
  settings := []
  printed := []
  warned := []
  told := []

/-- What was printed. -/
def output (s : Machine) : String :=
  String.join s.printed.reverse

/-- What was written as warnings and errors. -/
def errors (s : Machine) : String :=
  String.join s.warned.reverse

/-- Takes note of progress. -/
def note (s : Machine) (p : Progress) : Machine :=
  { s with told := p :: s.told }

/-- Changes the files, unless that is refused. -/
def change (f : Files → Except FileFault Files) (s : Machine) : Except String Unit × Machine :=
  match f s.files with
  | .ok files => (.ok (), { s with files })
  | .error fault => (.error fault.message, s)

/-- The exit of a program that ran, with the files that it left. -/
def finished (s : Machine) (run : Exit × Files) : Except String Exit × Machine :=
  (.ok run.1, { s with files := run.2 })

/-- The directories of programs. -/
def programDirectories : List String :=
  ["/bin/", "/usr/bin/"]

/-- The name of a program in one of the directories for them. -/
def programName? (path : String) : Option String :=
  programDirectories.findSome? fun directory =>
    (Text.stripStart? directory.toList path.toList).map String.ofList

/-- Runs a script by the program that its first line names, with the rest of that line as its first
argument. A program that is only looked up counts as a shell. -/
def interpret (s : Machine) (binary : String) (arguments : List String) (text : String) :
    Except String Exit × Machine :=
  let line := (text.toList.drop 2).takeWhile (· != '\n')
  let path := (Text.trim line).takeWhile fun c => c != ' ' && c != '\t'
  if path.isEmpty then
    (.error FileFault.notProgram.message, s)
  else
    match programName? (String.ofList path) with
    | none => (.error FileFault.missing.message, s)
    | some name =>
        if Shell.tools.contains name then
          let option := String.ofList (Text.trim ((Text.trim line).drop path.length))
          let options := if option.isEmpty then [] else [option]
          s.finished (Shell.runCommand s.files s.settings name (options ++ binary :: arguments))
        else if Shell.programs.contains name then
          s.finished (Shell.runText s.files s.settings binary arguments text)
        else
          (.error FileFault.missing.message, s)

/-- Runs a program: a path is that of a script, a name is that of a command. -/
def run (binary : String) (arguments : List String) (s : Machine) :
    Except String Exit × Machine :=
  if binary.toList.contains '/' then
    match s.files.locate ⟨binary⟩ with
    | .error fault => (.error fault.message, s)
    | .ok (_, none) => (.error FileFault.missing.message, s)
    | .ok (_, some (.file text true)) => s.interpret binary arguments text
    | .ok (_, some _) => (.error FileFault.refused.message, s)
  else if Shell.tools.contains binary then
    s.finished (Shell.runCommand s.files s.settings binary arguments)
  else
    (.error FileFault.missing.message, s)

/-- Whether the shell knows a command; its name is read as the shell reads words. -/
def isCommand (binary : String) (s : Machine) : Bool :=
  let line := s!"command -v {binary} >/dev/null 2>&1"
  (Shell.runText s.files s.settings "sh" [] line).1.isSuccess

end Machine
end Rehearsal

/-- Actions on a machine that is a value. -/
abbrev Rehearsed :=
  StateM Rehearsal.Machine

instance : Host Rehearsed where
  isThere p := fun s => (s.files.isThere p, s)
  isFile p := fun s => (s.files.isFile p, s)
  readText p := fun s => ((s.files.read p).mapError Rehearsal.FileFault.message, s)
  writeText p text := Rehearsal.Machine.change fun f => f.write p fun _ => text
  createDirectories p := Rehearsal.Machine.change fun f => f.createDirectories p
  openLog settings :=
    match settings.file with
    | none => pure (.ok ())
    | some p => Rehearsal.Machine.change fun f => f.write p id
  lookup? name := fun s => (s.settings.lookup name, s)
  isCommand binary := fun s => (s.isCommand binary, s)
  run := Rehearsal.Machine.run
  stamp := pure "<time>"
  elapsed := pure 0.0
  print text := fun s => ((), { s with printed := text :: s.printed })
  warn text := fun s => ((), { s with warned := text :: s.warned })

end Montage
