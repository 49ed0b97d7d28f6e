import Rehearsal.Bench.Basic

/-!
# Planning calls

With a ledger of expected calls, a configured call or fork goes by the first expectation that
accepts it. Stand-ins always have to be configured, other forks run for real, and other calls do so
unless that is refused.
-/
namespace Rehearsal.Planner

/-- The exception that an expectation throws. -/
def exception : Thrown → Act Exn
  | .error e => pure e
  | .fresh c => Act.ofScript (Script.Eval.newException c [])

/-- The plan of an expectation that a call of `name` counted towards. -/
def follow (name : String) (isStandIn : Bool) (e : CallExpectation) : Act CallPlan :=
  match e.thrown with
  | some t => do return ⟨false, .null, some (← exception t), e.wait⟩
  | none =>
    if e.real then
      if isStandIn then
        Act.refuse (.configuration (name ++ " is a mocked generator and cannot be called for real"))
      else pure ⟨true, .null, none, e.wait⟩
    else pure ⟨false, e.output, none, e.wait⟩

/-- The plan of a call that nothing expects. -/
def unconfigured (call : Call) (refused : Bool) (step : Nat) : Act CallPlan :=
  if call.fn.isStandIn then
    throw ((Value.list call.args).reportedIn (.harness (.unmatched
      ("Received mocked generator call with name " ++ call.name ++ " and args " ++
        (Value.list call.args).repr ++ ", but no such generator was defined in expected_calls")
      (some step))))
  else if refused then
    Act.refuse (.unmatched ("Received call to a function named " ++ call.name ++
      ", but the SagaTester was not configured to receive this call") (some step))
  else pure .real

/-- The plan by the ledger of expected calls. -/
def expected (p : Script.Program) (view : View) (failOnUnconfigured : Bool) (step : Nat)
    (call : Call) (forked : Bool) : Act CallPlan := do
  let s ← get
  if s.calls.contains call.name then
    match ← Act.ofScript (s.calls.record (Script.accepts p view) call.name call.args step) with
    | .error f => throw f
    | .ok (e, calls) =>
      modify fun s => { s with calls }
      follow call.name call.fn.isStandIn e
  else unconfigured call (failOnUnconfigured && !forked) step

/-- The plan of a call or fork. -/
def plan (setup : Setup) (view : View) (call : Call) (forked : Bool) : Act CallPlan :=
  match setup.planner with
  | real => pure .real
  | table plans => pure ((plans.reverse.lookup call.name).getD .real)
  | expecting failOnUnconfigured countsSteps =>
    let step := if countsSteps then view.steps else 0
    expected setup.program view failOnUnconfigured step call forked

end Rehearsal.Planner
