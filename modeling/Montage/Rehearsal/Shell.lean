import Montage.Host
import Montage.Rehearsal.Files
import Montage.Rehearsal.Script

/-!
# Running scripts

**Input.** A script, its arguments, and the files and variables around it.

**Algorithm.** Structural recursion over the script. A command first has its variables replaced and
its streams redirected, then it acts on the files and streams.

**Results.** `Shell.runText` gives the exit of a script and the files after it.
-/

namespace Montage
namespace Rehearsal

/-- The state of a running script. -/
structure Shell where
  files : Files
  settings : List (String × String)
  name : String
  arguments : List String
  exit : Exit
  ended : Bool
  lines : Nat

/-- Where a stream goes. -/
inductive Outlet where
  | output
  | errors
  | file (p : Path)
  | nowhere
  deriving Repr, DecidableEq

/-- Where the input comes from, as the text that it holds, and where output and errors go. -/
structure Outlets where
  input : String
  output : Outlet
  errors : Outlet
  deriving Repr, DecidableEq

namespace Shell

/-- Sets how the last command ended. -/
def setEnding (sh : Shell) (ending : Ending) : Shell :=
  { sh with exit := { sh.exit with ending } }

/-- Sets the exit code of the last command. -/
def setCode (sh : Shell) (code : Nat) : Shell :=
  sh.setEnding (.exited (code % 256))

/-- Whether the last command ended well. -/
def succeeded (sh : Shell) : Bool :=
  sh.exit.isSuccess

/-- The number under which a script runs. -/
def processNumber : String :=
  "100"

/-- Writes to an outlet. -/
def emit (sh : Shell) (o : Outlet) (s : String) : Shell :=
  match o with
  | .output => { sh with exit := { sh.exit with output := sh.exit.output ++ s } }
  | .errors => { sh with exit := { sh.exit with errors := sh.exit.errors ++ s } }
  | .nowhere => sh
  | .file p => { sh with files := (sh.files.write p (· ++ s)).toOption.getD sh.files }

/-- The value of a variable. -/
def valueOf (sh : Shell) (name : String) : String :=
  if name = "@" ∨ name = "*" then
    String.intercalate " " sh.arguments
  else if name = "#" then
    sh.arguments.length.repr
  else if name = "?" then
    sh.exit.ending.code.repr
  else if name = "$" then
    processNumber
  else
    match Decimal.parseNat? name.toList with
    | some n => (sh.name :: sh.arguments)[n]?.getD ""
    | none => (sh.settings.lookup name).getD ""

/-- The text of a word whose variables are replaced. -/
def textOf (sh : Shell) (w : Word) : String :=
  String.join (w.map fun part =>
    match part with
    | .text s _ => s
    | .parameter name _ => sh.valueOf name)

/-- Appends to the last of some fields, which is opened if there is none. -/
def glue (fields : List String) (s : String) : List String :=
  fields.dropLast ++ [fields.getLast?.getD "" ++ s]

/-- Appends a list of fields: its first to the last, the others as fields of their own. -/
def glueAll (fields : List String) : List String → List String
  | [] => fields
  | first :: rest => glue fields first ++ rest

/-- The fields that a part adds. -/
def expandPart (sh : Shell) (fields : List String) : Part → List String
  | .text s _ => glue fields s
  | .parameter "@" true => glueAll fields sh.arguments
  | .parameter name true => glue fields (sh.valueOf name)
  | .parameter name false =>
      glueAll fields ((Text.words (sh.valueOf name).toList).map String.ofList)

/-- The fields of a word. Quotes around all arguments make no field where there are none. -/
def expand (sh : Shell) (w : Word) : List String :=
  let w :=
    if w.contains (.parameter "@" true) then w.filter (· != .text "" true) else w
  w.foldl sh.expandPart []

/-- What is left of a text after each of its beginnings. -/
def rests : List Char → List (List Char)
  | [] => [[]]
  | c :: cs => (c :: cs) :: rests cs

/-- Whether a text fits a pattern, in which unquoted stars and question marks are open. -/
def fitsChars : List (Char × Bool) → List Char → Bool
  | [], cs => cs.isEmpty
  | (p, quoted) :: ps, cs =>
      if p = '*' ∧ !quoted then
        (rests cs).any (fitsChars ps)
      else
        match cs with
        | c :: rest => (p == c || (p == '?' && !quoted)) && fitsChars ps rest
        | [] => false

/-- The characters of a pattern and whether they are quoted. -/
def patternOf (sh : Shell) (w : Word) : List (Char × Bool) :=
  w.flatMap fun part =>
    match part with
    | .text s quoted => s.toList.map fun c => (c, quoted)
    | .parameter name quoted => (sh.valueOf name).toList.map fun c => (c, quoted)

/-- Whether a word fits a pattern. -/
def fitsWord (sh : Shell) (w pattern : Word) : Bool :=
  fitsChars (sh.patternOf pattern) (sh.textOf w).toList

/-- The characters that letters after a backslash stand for. -/
def escapes : List (Char × Char) :=
  [('n', '\n'), ('t', '\t'), ('r', '\r'), ('a', '\x07'), ('b', '\x08'), ('f', '\x0c'),
    ('v', '\x0b'), ('\\', '\\')]

/-- Replaces escapes. -/
def unescape : List Char → List Char
  | '\\' :: c :: cs =>
      match escapes.lookup c with
      | some d => d :: unescape cs
      | none => '\\' :: unescape (c :: cs)
  | c :: cs => c :: unescape cs
  | [] => []

/-- What a format gives for arguments in order, and the arguments that are left. -/
def formatOnce : List Char → List String → String × List String
  | '%' :: '%' :: cs, args =>
      let (s, rest) := formatOnce cs args
      ("%" ++ s, rest)
  | '%' :: 's' :: cs, args =>
      let (s, rest) := formatOnce cs (args.drop 1)
      (args.headD "" ++ s, rest)
  | '%' :: 'd' :: cs, args =>
      let (s, rest) := formatOnce cs (args.drop 1)
      (args.headD "0" ++ s, rest)
  | c :: cs, args =>
      let (s, rest) := formatOnce cs args
      (String.ofList [c] ++ s, rest)
  | [], args => ("", args)

/-- A format, used again while it takes up arguments; the first argument bounds how often. -/
def formatWithin (format : List Char) : Nat → List String → String
  | 0, _ => ""
  | n + 1, args =>
      let (s, rest) := formatOnce format args
      if rest.isEmpty || rest.length == args.length then s else s ++ formatWithin format n rest

/-- The comparisons of numbers. -/
def comparisons : List (String × (Int → Int → Bool)) :=
  [("-eq", fun a b => a == b), ("-ne", fun a b => a != b), ("-lt", fun a b => a < b),
    ("-le", fun a b => a ≤ b), ("-gt", fun a b => b < a), ("-ge", fun a b => b ≤ a)]

/-- What a test says. -/
def test (files : Files) : List String → Bool
  | "!" :: rest => !test files rest
  | ["-f", p] => files.isFile ⟨p⟩
  | ["-e", p] => files.isThere ⟨p⟩
  | ["-d", p] => files.isThere ⟨p⟩ && !files.isFile ⟨p⟩
  | ["-n", s] => !s.isEmpty
  | ["-z", s] => s.isEmpty
  | [a, "=", b] => a == b
  | [a, "!=", b] => a != b
  | [a, comparison, b] =>
      match comparisons.lookup comparison, a.toInt?, b.toInt? with
      | some holds, some a, some b => holds a b
      | _, _, _ => false
  | [s] => !s.isEmpty
  | _ => false

/-- The programs that can be rehearsed. -/
def tools : List String :=
  ["echo", "printf", "true", "false", "cat", "sleep", "test", "[", "touch", "kill"]

/-- The words that a shell itself understands. -/
def builtins : List String :=
  [".", ":", "alias", "bg", "break", "cd", "chdir", "command", "continue", "eval", "exec", "exit",
    "export", "fg", "getopts", "hash", "jobs", "local", "pwd", "read", "readonly", "return", "set",
    "shift", "times", "trap", "type", "ulimit", "umask", "unalias", "unset", "wait", "!", "case",
    "do", "done", "elif", "else", "esac", "fi", "for", "if", "in", "then", "until", "while",
    "\x7b", "\x7d"]

/-- The programs that are there to be found, but cannot be rehearsed. -/
def programs : List String :=
  ["sh", "bash", "dash", "ls", "cp", "mv", "rm", "mkdir", "rmdir", "ln", "env", "grep", "sed",
    "awk", "head", "tail", "sort", "uniq", "cut", "tr", "wc", "tee", "date", "chmod", "basename",
    "dirname", "find", "xargs", "uname", "id", "tar", "gzip", "seq", "yes", "perl"]

/-- Whether a command is known. -/
def knows (files : Files) (name : String) : Bool :=
  if name.toList.contains '/' then
    match files.locate ⟨name⟩ with
    | .ok (_, some (.file _ executable)) => executable
    | _ => false
  else
    tools.contains name || builtins.contains name || programs.contains name

/-- Prints the texts of files, or the input if there are none. -/
def cat (sh : Shell) (o : Outlets) (files : List String) : Shell :=
  let print (sh : Shell) (file : String) : Shell :=
    if file = "-" then
      sh.emit o.output o.input
    else
      match sh.files.read ⟨file⟩ with
      | .ok text => sh.emit o.output text
      | .error _ => (sh.emit o.errors s!"cat: {file}: No such file or directory\n").setCode 1
  (if files.isEmpty then ["-"] else files).foldl print (sh.setCode 0)

/-- Creates files that are not there. -/
def touch (sh : Shell) (files : List String) : Shell :=
  files.foldl
    (fun sh file =>
      match sh.files.write ⟨file⟩ id with
      | .ok files => { sh with files }
      | .error _ => sh.setCode 1)
    (sh.setCode 0)

/-- Prints a line whose escapes are replaced. -/
def echo (sh : Shell) (o : Outlets) (words : List String) : Shell :=
  let text (words : List String) :=
    String.ofList (unescape (String.intercalate " " words).toList)
  match words with
  | "-n" :: words => (sh.emit o.output (text words)).setCode 0
  | words => (sh.emit o.output (text words ++ "\n")).setCode 0

/-- The signal and the process that a script names to send it. -/
def signalAndProcess? : List String → Option (Signal × String)
  | [process] => some (.terminate, process)
  | ["-s", name, process] => (Signal.ofText? name).map fun signal => (signal, process)
  | [option, process] =>
      (Text.stripStart? ['-'] option.toList).bind fun name =>
        (Signal.ofText? (String.ofList name)).map fun signal => (signal, process)
  | _ => none

/-- Sends a signal, which ends the script if it is sent to itself. -/
def send (sh : Shell) (words : List String) : Shell :=
  match signalAndProcess? words with
  | some (signal, process) =>
      if process = processNumber then { sh.setEnding (.stopped signal) with ended := true }
      else sh.setCode 1
  | none => sh.setCode 1

/-- Complains with the name of the script and a line of it. -/
def complain (sh : Shell) (o : Outlets) (linesAfter : Nat) (what : String) : Shell :=
  sh.emit o.errors s!"{sh.name}: {(sh.lines - linesAfter).repr}: {what}\n"

/-- Runs a command with its arguments. -/
def act (sh : Shell) (o : Outlets) (linesAfter : Nat) : List String → Shell
  | [] => sh.setCode 0
  | "echo" :: words => sh.echo o words
  | "printf" :: format :: words =>
      let text := formatWithin (unescape format.toList) (words.length + 1) words
      (sh.emit o.output text).setCode 0
  | "exit" :: codes =>
      let code := (codes.head?.bind fun s => Decimal.parseNat? s.toList).getD sh.exit.ending.code
      { sh.setCode code with ended := true }
  | ":" :: _ => sh.setCode 0
  | "true" :: _ => sh.setCode 0
  | "false" :: _ => sh.setCode 1
  | "sleep" :: _ => sh.setCode 0
  | "shift" :: _ => { sh.setCode 0 with arguments := sh.arguments.drop 1 }
  | "cat" :: files => sh.cat o files
  | "touch" :: files => sh.touch files
  | "kill" :: words => sh.send words
  | "exec" :: words => { act sh o linesAfter words with ended := true }
  | "test" :: rest => sh.setCode (if test sh.files rest then 0 else 1)
  | "[" :: rest => sh.setCode (if test sh.files rest.dropLast then 0 else 1)
  | ["command", "-v"] => sh.setCode 0
  | "command" :: "-v" :: name :: _ =>
      if knows sh.files name then (sh.emit o.output (name ++ "\n")).setCode 0 else sh.setCode 127
  | name :: _ =>
      if builtins.contains name then sh.setCode 0
      else (sh.complain o linesAfter s!"{name}: not found").setCode 127

/-- The outlets after redirections, unless a file cannot be opened. -/
def redirect (sh : Shell) (o : Outlets) (linesAfter : Nat) :
    List Redirection → Shell × Option Outlets
  | [] => (sh, some o)
  | r :: rest =>
      let target := sh.textOf r.target
      let connect (outlet : Outlet) : Outlets :=
        if r.stream = 2 then { o with errors := outlet } else { o with output := outlet }
      if r.kind = "<<" then
        redirect sh { o with input := target } linesAfter rest
      else if r.kind = "<" then
        match sh.files.read ⟨target⟩ with
        | .ok text => redirect sh { o with input := text } linesAfter rest
        | .error _ =>
            ((sh.complain o linesAfter s!"cannot open {target}: No such file").setCode 2, none)
      else if r.kind = ">&" then
        redirect sh (connect (if target = "2" then o.errors else o.output)) linesAfter rest
      else if target = "/dev/null" then
        redirect sh (connect .nowhere) linesAfter rest
      else
        match sh.files.write ⟨target⟩ fun old => if r.kind = ">>" then old else "" with
        | .ok files => redirect { sh with files } (connect (.file ⟨target⟩)) linesAfter rest
        | .error fault =>
            let reason := if fault = .directory then "Is a directory" else "Directory nonexistent"
            ((sh.complain o linesAfter s!"cannot create {target}: {reason}").setCode 2, none)

/-- The variable and the value of a word that sets one. -/
def assignment? (w : Word) : Option (String × Word) :=
  let front := w.takeWhile fun part => part != .text "=" false
  match Word.bare? front, w.drop front.length with
  | some name, _ :: value =>
      if !name.isEmpty && name.toList.all Word.isNameChar then some (name, value) else none
  | _, _ => none

/-- Sets variables. -/
def assign (sh : Shell) (sets : List (String × Word)) : Shell :=
  sets.foldl
    (fun sh (name, value) =>
      { sh with settings := (name, sh.textOf value) :: sh.settings })
    (sh.setCode 0)

/-- Runs a script. -/
def run (o : Outlets) : Script → Shell → Shell
  | .nothing, sh => sh
  | .group body redirections, sh =>
      if sh.ended then
        sh
      else
        match sh.redirect o 0 redirections with
        | (sh, none) => sh
        | (sh, some o) => run o body sh
  | .apart body, sh =>
      if sh.ended then
        sh
      else
        let inner := run o body sh
        { sh with
          files := inner.files
          exit := inner.exit
          ended := inner.exit.ending matches .stopped _ }
  | .command linesAfter words redirections, sh =>
      if sh.ended then
        sh
      else
        match sh.redirect o linesAfter redirections with
        | (sh, none) => sh
        | (sh, some o) =>
            match words.mapM assignment? with
            | some sets => sh.assign sets
            | none => sh.act o linesAfter (words.flatMap sh.expand)
  | .sequence a b, sh => run o b (run o a sh)
  | .both a b, sh =>
      let sh := run o a sh
      if sh.succeeded then run o b sh else sh
  | .either a b, sh =>
      let sh := run o a sh
      if sh.succeeded then sh else run o b sh
  | .negation a, sh =>
      let sh := run o a sh
      if sh.ended then sh else sh.setCode (if sh.succeeded then 1 else 0)
  | .forEach name words body, sh =>
      let values := match words with
        | some words => words.flatMap sh.expand
        | none => sh.arguments
      values.foldl
        (fun sh value => run o body { sh with settings := (name, value) :: sh.settings }) sh
  | .fits w patterns body otherwise, sh =>
      if sh.ended then sh
      else if patterns.any (sh.fitsWord w) then run o body (sh.setCode 0)
      else run o otherwise (sh.setCode 0)
  | .branch condition body otherwise, sh =>
      let sh := run o condition sh
      if sh.ended then sh
      else if sh.succeeded then run o body sh
      else run o otherwise (sh.setCode 0)

/-- Runs the text of a script under a name with arguments. -/
def runText (files : Files) (settings : List (String × String)) (name : String)
    (arguments : List String) (text : String) : Exit × Files :=
  let lines := text.toList.count '\n' + 1
  let start : Shell := ⟨files, settings, name, arguments, ⟨.exited 0, "", ""⟩, false, lines⟩
  let sh := run ⟨"", .output, .errors⟩ (Script.ofText text) start
  (sh.exit, sh.files)

/-- Runs one of the programs that can be rehearsed. -/
def runCommand (files : Files) (settings : List (String × String)) (name : String)
    (arguments : List String) : Exit × Files :=
  let start : Shell := ⟨files, settings, name, arguments, ⟨.exited 0, "", ""⟩, false, 1⟩
  let sh := start.act ⟨"", .output, .errors⟩ 0 (name :: arguments)
  (sh.exit, sh.files)

end Shell
end Rehearsal
end Montage
