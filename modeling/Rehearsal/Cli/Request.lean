import Rehearsal.Cli.Arguments
import Rehearsal.Decimal.Reader

/-!
# Requests

The program has one command, which runs a saga. `readCommand` turns a command line into a request,
into a call for help, or into the message about a misuse.
-/
namespace Rehearsal.Cli

open Text

/-- A saga to run, and how. -/
structure Request where
  /-- Where the saga is found. -/
  saga : String
  /-- The text of its arguments. -/
  args : Option String
  stepLimit : Int
  strict : Bool
  swallowSpawnErrors : Bool
  waitForSpawned : Bool
  json : Bool

/-- What a command line comes to. -/
inductive Command where
  | help
  /-- A misuse, with the line that reports it. -/
  | misuse (line : String)
  | run (r : Request)

/-- Why a command line is not carried out. -/
inductive Halt where
  | help
  | misuse (message : String)

/-- What is known of a request so far, and the words that have no place in it. -/
structure Draft where
  saga : Option String
  request : Request
  extras : List String

namespace Draft

def empty : Draft := ⟨none, ⟨"", none, 10000, false, false, false, false⟩, []⟩

def setFlag (r : Request) (name : String) : Request :=
  if name == "--strict" then { r with strict := true }
  else if name == "--swallow-spawn-errors" then { r with swallowSpawnErrors := true }
  else { r with waitForSpawned := true }

def setValue (r : Request) (name text : String) : Except Halt Request :=
  if name == "--args" then .ok { r with args := some text }
  else if name == "--step-limit" then
    let isShort := (Decimal.digitCount text).getD 0 ≤ Decimal.digitLimit
    match (Decimal.readInt? text).filter fun _ => isShort with
    | some n => .ok { r with stepLimit := n }
    | none => .error (.misuse ("argument --step-limit: invalid int value: " ++ quoted text))
  else if text == "json" then .ok { r with json := true }
  else if text == "text" then .ok { r with json := false }
  else .error (.misuse ("argument --format: invalid choice: " ++ quoted text ++
    " (choose from 'text', 'json')"))

def apply (d : Draft) : Event → Except Halt Draft
  | .help => .error .help
  | .flag name => .ok { d with request := setFlag d.request name }
  | .value name text => (setValue d.request name text).map fun request => { d with request }
  | .argument words => .ok { d with saga := words.head? }
  | .extra word => .ok { d with extras := d.extras ++ [word] }

end Draft

def helpOption : OptionSpec := ⟨"--help", .help, some "-h"⟩

/-- The options of the command that runs a saga. -/
def runGrammar : Grammar :=
  ⟨[helpOption, ⟨"--args", .value, none⟩, ⟨"--step-limit", .value, none⟩,
    ⟨"--strict", .flag, none⟩, ⟨"--swallow-spawn-errors", .flag, none⟩,
    ⟨"--wait-for-spawned", .flag, none⟩, ⟨"--format", .value, none⟩], false⟩

/-- The options before the command. -/
def topGrammar : Grammar := ⟨[helpOption], true⟩

def missing (what : String) : Halt := .misuse ("the following arguments are required: " ++ what)

/-- The request that the words after the command make, and those without a place in it. -/
def readRequest (words : List String) : Except Halt (Request × List String) := do
  let reading := runGrammar.read words
  let d ← reading.events.foldlM Draft.apply Draft.empty
  match reading.fault, d.saga with
  | some message, _ => throw (.misuse message)
  | none, none => throw (missing "saga")
  | none, some saga => return ({ d.request with saga }, d.extras)

def Halt.command (program : String) : Halt → Command
  | help => .help
  | misuse message => .misuse (program ++ ": error: " ++ message)

/-- What comes of a command line, with the words without a place met so far. -/
def followEvents (fault : Option String) (extras : List String) : List Event → Command
  | [] => match fault with
    | some message => Halt.command "sagasim" (.misuse message)
    | none => Halt.command "sagasim" (missing "command")
  | .extra word :: rest => followEvents fault (extras ++ [word]) rest
  | .argument (name :: words) :: _ =>
    if name == "run" then
      match readRequest words with
      | .error halt => halt.command "sagasim run"
      | .ok (request, more) =>
        match extras ++ more with
        | [] => .run request
        | unplaced => Halt.command "sagasim"
            (.misuse ("unrecognized arguments: " ++ " ".intercalate unplaced))
    else Halt.command "sagasim" (.misuse ("argument command: invalid choice: " ++ quoted name ++
      " (choose from 'run')"))
  | _ :: _ => .help

/-- What a command line comes to. -/
def readCommand (words : List String) : Command :=
  let reading := topGrammar.read words
  followEvents reading.fault [] reading.events

end Rehearsal.Cli
