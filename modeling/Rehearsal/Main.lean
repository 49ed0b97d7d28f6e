import Rehearsal.Cli.Run
import Rehearsal.Script.Reader

/-!
# The command line

Modules are scripts. They come on standard input in the interchange format, as one object that maps
the name of each module to the list of its functions.
-/
namespace Rehearsal.Cli

def readModule (entry : String × Json) : Except String Module :=
  match entry with
  | (name, .array funcs) => (Script.Reader.program funcs 0).map fun p => ⟨name, p.1⟩
  | (name, _) => .error (name ++ " is not a list of functions")

/-- The modules that a text holds. -/
def readModules (s : String) : Except String (List Module) :=
  match Json.read s with
  | .error fault => .error (fault.describe s)
  | .ok (.object entries) => entries.mapM readModule
  | .ok _ => .error "modules come as an object"

def usage : String := "usage: sagasim [-h] \x7brun\x7d ..."

/-- All of a stream. -/
partial def readAll (input : IO.FS.Stream) (acc : String) : IO String := do
  let line ← input.getLine
  if line.isEmpty then return acc else readAll input (acc ++ line)

end Rehearsal.Cli

open Rehearsal Cli in
def main (words : List String) : IO UInt32 := do
  match readCommand words with
  | .help =>
    IO.println usage
    return 0
  | .misuse line =>
    IO.eprintln (usage ++ "\n" ++ line)
    return 2
  | .run r =>
    let text ← readAll (← IO.getStdin) ""
    let modules ← match readModules text with
      | .ok modules => pure modules
      | .error message => throw (IO.userError message)
    match r.execute modules with
    | .report report =>
      for line in report.trace do IO.eprintln line
      IO.print report.stdout
      IO.eprint report.stderr
      return report.code.toUInt32
    | .fatal e => throw (IO.userError e.summary)
    | .help | .misuse _ => return 2
