import Rehearsal.Bench.World

/-!
# Testers

A tester runs a saga against configured expectations. Every run starts with a fresh scheduler and
fresh ledgers; afterwards whatever was expected and did not happen is reported, and refused with
one error unless the tester is told not to.
-/
namespace Rehearsal

structure Tester where
  saga : Value
  calls : CallLedger
  actions : ActionLedger
  state : Value
  selectors : Value
  /-- What takes are served from, unless there are none. -/
  effective : List Value
  options : RunOptions
  shouldAssert : Bool

/-- What a run of a tester leaves behind. -/
structure TestRun where
  outcome : Except Failure Value
  machine : Machine Bench
  /-- What the saga returned. -/
  returned : Value
  /-- The reports of unmet expectations. -/
  errors : List String

namespace Tester

def parameterNames : List String :=
  ["expected_calls", "expected_actions", "state", "selectors", "effective_actions", "options",
    "debug", "should_assert"]

def checkSaga (v : Value) : Except Failure Unit :=
  if v.generatorFunction?.isSome then .ok ()
  else .error
    (.configuration ("The generator function received is invalid. It must be a reference " ++
    "to a generator function, and it cannot be a running generator."))

/-- Accepts nothing or a mapping. -/
def checkMapping (message : String) : Value → Except Failure Unit
  | .null | .dict _ => .ok ()
  | _ => .error (.configuration message)

def checkEffective : Value → Except Failure (List Value)
  | .null => .ok []
  | v =>
    let refusal := Except.error (Failure.configuration
      "effective_actions must be a list of mappings containing an attribute \"type\"")
    match v.items? with
    | some items => if items.all (·.isAction) then .ok items else refusal
    | none => refusal

/-- The options with those of debugging put in their place, if any are given. -/
def withDebug (o : RunOptions) : Value → Except Failure RunOptions
  | .null => .ok o
  | v => do return { o with debug := ← DebugOptions.ofValue v }

/-- A tester of a saga without any expectations. -/
def plain (saga : Value) (options : RunOptions) : Except Failure Tester := do
  checkSaga saga
  return { saga, calls := .empty, actions := .empty, state := .null, selectors := .null,
           effective := [], options, shouldAssert := true }

/-- A tester from arguments given by name. -/
def ofNamed (saga : Value) (given : List (String × Value)) : Except Failure Tester := do
  match given.find? fun e => !parameterNames.contains e.1 with
  | some (name, _) => throw (Refusal.failure (.typed
      ("SagaTester.__init__() got an unexpected keyword argument '" ++ name ++ "'")))
  | none => pure ()
  let get := fun (name : String) => (given.lookup name).getD .null
  checkSaga saga
  checkMapping "state must be a mapping" (get "state")
  checkMapping "selectors must be a mapping of mocked selector names to values" (get "selectors")
  let effective ← checkEffective (get "effective_actions")
  let calls ← CallLedger.ofValue (get "expected_calls")
  let actions ← ActionLedger.ofValue (get "expected_actions")
  let options ← withDebug (← RunOptions.ofValue (get "options")) (get "debug")
  let shouldAssert := ((given.lookup "should_assert").getD (.bool true)).truthy
  return { saga, calls, actions, state := get "state", selectors := get "selectors", effective,
           options, shouldAssert }

/-- The actions that takes are served from: those configured, or else a first argument that is
one. -/
def queue (t : Tester) (args : List Value) : List Value :=
  match t.effective, args with
  | [], a :: _ => if a.isAction then [a] else []
  | effective, _ => effective

def setup (t : Tester) (p : Script.Program) : Setup where
  program := p
  planner := .expecting t.options.failOnUnconfigured true
  selection := .ofValues t.state t.selectors t.options.passOnNone
  handlers := ⟨Handling.standard.map fun h => (h.1, some h.2)⟩

/-- The bench that a run starts from. -/
def bench (t : Tester) (args : List Value) : Bench :=
  { Bench.empty with calls := t.calls, actions := t.actions, queue := t.queue args }

/-- The refusal of unmet expectations. -/
def verdict (errors : List String) : Failure :=
  .exn ⟨.assertion,
    [.text ("Errors while running SagaTester.\n\n" ++ "\n\n".intercalate errors)], .scheduler 0⟩

/-- What is unmet at the end of a run: actions first, then calls. What they received is shown as it
stands then. -/
def unmet (b : Bench) : Except Failure (List String) :=
  let look := b.memory.shown
  match b.actions.unmetMessages look, b.calls.unmetMessages look with
  | .ok actions, .ok calls => .ok (actions ++ calls)
  | .error r, _ | _, .error r => .error r.failure

/-- Runs the saga and checks the expectations. -/
def run (t : Tester) (p : Script.Program) (args : List Value) : TestRun :=
  let (outcome, machine) := (t.setup p).run t.options (.initial (t.bench args)) t.saga args
  match outcome with
  | .error f => ⟨.error f, machine, .null, []⟩
  | .ok v => match unmet machine.outer with
    | .error f => ⟨.error f, machine, v, []⟩
    | .ok errors =>
      if t.shouldAssert && !errors.isEmpty then ⟨.error (verdict errors), machine, v, errors⟩
      else ⟨.ok v, machine, v, errors⟩

end Tester

end Rehearsal
