import Abacus.CommandLine

/-!
The program: reads its arguments, files and lines, and writes what the session answers.
-/
namespace Abacus.Console

/-- The name that the program is called by. -/
def name : String := "abacus"

/-- The text of a file, if it can be read. -/
def readFile? (path : String) : IO (Option String) := do
  try
    let text ← IO.FS.readFile path
    return some text
  catch _ => return none

/-- Writes what an input printed and recorded. -/
def emit (verbose : Bool) (printed : Except Defect String) (events : List Event) : IO Unit := do
  IO.eprint (CommandLine.logText verbose events)
  match printed with
  | .ok text => IO.print text
  | .error d => IO.eprint (CommandLine.errorReport d.message).stderr

/-- The prompt, line by line; `pending` are lines that wait for their continuation. -/
partial def converse (verbose : Bool) (env : Environment) (pending : List String)
    (input : IO.FS.Stream) : IO Unit := do
  IO.print Prompt.invitation
  (← IO.getStdout).flush
  let line ← input.getLine
  if line.isEmpty then IO.println ""
  else
    let lines := pending ++ [line]
    match Prompt.nextInput [] lines with
    | some (text, _) =>
      let s := Prompt.step env text
      emit verbose s.printed s.events
      if s.goesOn then converse verbose s.environment [] input
    | none =>
      let waits := (Prompt.continued? (Prompt.bareLine line)).isSome
      converse verbose env (if waits then lines else []) input

/-- Runs what the arguments ask for and returns the exit code. -/
def perform (r : CommandLine.Request) : IO UInt32 := do
  let mut files : List (String × Option String) := []
  for path in (CommandLine.named r.config).toList ++ (CommandLine.named r.file).toList do
    files := (path, ← readFile? path) :: files
  let file (path : String) : Option String := (files.find? (·.1 == path)).bind (·.2)
  match CommandLine.settingsFor r file, CommandLine.named r.file with
  | .ok settings, none => do
    IO.println Prompt.banner
    converse r.verbose { settings := settings } [] (← IO.getStdin)
    return 0
  | _, _ => do
    let report := CommandLine.run r file []
    IO.eprint report.stderr
    IO.print report.stdout
    return report.code.toUInt32

end Abacus.Console

open Abacus in
def main (args : List String) : IO UInt32 := do
  match CommandLine.readArguments {} args with
  | .error .usage => do
    IO.eprintln (CommandLine.usage Console.name)
    return 2
  | .error .help => do
    IO.println (CommandLine.help Console.name)
    return 0
  | .ok r => Console.perform r
