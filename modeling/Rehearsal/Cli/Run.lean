import Rehearsal.Bench.Tester
import Rehearsal.Cli.Output
import Rehearsal.Cli.Request
import Rehearsal.Cli.Symbol
import Rehearsal.Json.Reader
import Rehearsal.Value.LongNumber

/-!
# Carrying out a request

A saga is run without expectations, and its result or its failure is reported as text or in the
interchange format.
-/
namespace Rehearsal.Cli

/-- What carrying out a request comes to. -/
structure Report where
  code : Nat
  stdout : String
  stderr : String
  /-- The diagnostics of the run. -/
  trace : Array String
  /-- What the script logged. -/
  log : Array (Nat × Value)

/-- What a command line leads to. -/
inductive Outcome where
  | help
  /-- A misuse, with the line that reports it. -/
  | misuse (line : String)
  | report (r : Report)
  /-- An exception that is not reported, because it is fatal or reporting another one raises it. -/
  | fatal (e : Exn)

mutual

/-- The value that a text in the interchange format denotes. All undefined numbers of a text are
one object. -/
def valueOfJson : Json → Value
  | .null => .null
  | .bool b => .bool b
  | .int n => .int n
  | .float x => .ofFloat x (.constant 0)
  | .text s => .text s
  | .array items => .list (valuesOfJson items)
  | .object entries => .dict ⟨false, entriesOfJson entries⟩

def valuesOfJson : List Json → List Value
  | [] => []
  | j :: js => valueOfJson j :: valuesOfJson js

def entriesOfJson : List (String × Json) → List (Value × Value)
  | [] => []
  | (k, j) :: es => (.text k, valueOfJson j) :: entriesOfJson es

end

/-- The positional arguments that a text denotes: the items of a list, or one value. -/
def readArgs (text : Option String) : Except Failure (List Value) :=
  match text with
  | none => .ok []
  | some text => match Json.read text with
    | .ok (.array items) => .ok (valuesOfJson items)
    | .ok j => .ok [valueOfJson j]
    | .error (.longNumber digits) => .error (longRefusal (some digits)).failure
    | .error fault => .error (.configuration ("--args must be valid JSON: " ++ fault.describe text))

/-- The options of a request. -/
def Request.options (r : Request) : Except Failure RunOptions :=
  RunOptions.default.update
    [("step_limit", .int r.stepLimit), ("fail_on_unconfigured", .bool r.strict),
      ("swallow_spawn_errors", .bool r.swallowSpawnErrors),
      ("wait_for_spawned", .bool r.waitForSpawned)]

/-- The place of a request's saga. -/
def Request.place (r : Request) : Except Failure Place :=
  match Place.ofText? r.saga with
  | some p => .ok p
  | none => .error (.configuration ("'" ++ r.saga ++
      "' is not a fully-qualified symbol. Use module:saga format."))

/-- The run of a request's saga, or what keeps it from running. -/
def Request.perform (r : Request) (modules : List Module) : Except Failure TestRun := do
  let args ← readArgs r.args
  let options ← r.options
  let place ← r.place
  let (home, symbol) ← (place.find modules).mapError Refusal.failure
  let tester ← Tester.plain symbol.toValue options
  return tester.run home.program args

/-- The report of a result. It is refused if a number in it is too long to be written out. -/
def Request.success (r : Request) (run : TestRun) (v : Value) : Except Refusal String := do
  v.checkLong
  if r.json then
    let dispatched := run.machine.outer.dispatchedNow.map fun
      | .dict m => .dict ⟨false, m.entries⟩
      | v => v
    dispatched.forM Value.checkLong
    return (Json.object
      [("status", .text "ok"), ("saga", .text r.saga), ("result", v.report),
        ("result_type", .text v.typeName), ("steps", .int run.machine.steps),
        ("dispatched", .array (dispatched.map Value.report))]).render ++ "\n"
  else return v.plain ++ "\n"

/-- The report of a failure, on standard output and on standard error. -/
def Request.failure (r : Request) (f : Failure) : String × String :=
  if r.json then
    ((Json.object [("status", .text "error"), ("error", .text f.name),
      ("message", .text f.message)]).render ++ "\n", "")
  else ("", "Error: " ++ f.message ++ "\n")

/-- Whether a failure is a fatal exception. -/
def fatal? : Failure → Option Exn
  | .exn e => if e.kind.isFatal then some e else none
  | .harness _ => none

/-- Carries out a request. -/
def Request.execute (r : Request) (modules : List Module) : Outcome :=
  let failed := fun (f : Failure) (trace : Array String) (log : Array (Nat × Value)) =>
    match fatal? f with
    | some e => Outcome.fatal e
    | none =>
      if f.hasLong then .fatal ((longRefusal none).at (.scheduler 0))
      else
        let (stdout, stderr) := r.failure f
        .report ⟨1, stdout, stderr, trace, log⟩
  match r.perform modules with
  | .error f => failed f #[] #[]
  | .ok run =>
    let trace := run.machine.trace
    let log := run.machine.outer.memory.log
    match run.outcome with
    | .ok v => match r.success run v with
      | .ok stdout => .report ⟨0, stdout, "", trace, log⟩
      | .error refusal => failed refusal.failure trace log
    | .error f => failed f trace log

/-- Carries out a command line. -/
def execute (modules : List Module) (words : List String) : Outcome :=
  match readCommand words with
  | .help => .help
  | .misuse line => .misuse line
  | .run r => r.execute modules

end Rehearsal.Cli
