import Rehearsal.Task.Dump

/-!
# Failures

Failures of the test bench and exceptions of tested code are different things: only the latter
travel through tasks. `Failure` is either, on its way out of a run.
-/
namespace Rehearsal

/-- Why a run was given up. -/
inductive StopReason where
  /-- No pending task can go on. -/
  | deadlock
  /-- The step counter passed its ceiling. -/
  | stepLimit
  deriving DecidableEq

def StopReason.name : StopReason → String
  | deadlock => "deadlock"
  | stepLimit => "step-limit"

/-- Failures of the test bench. -/
inductive HarnessError where
  | plain (message : String)
  /-- Malformed options, expectations or entry points. -/
  | configuration (message : String)
  /-- An effect that nothing expects, and the step it was met at. -/
  | unmatched (message : String) (step : Option Nat)
  /-- An exception that escaped a task nobody answers for. -/
  | testedCode (cause : Exn) (taskId : Option Nat) (taskName : Option String)
      (step : Option Nat)
  | stopped (dump : TaskDump) (step : Nat) (reason : StopReason)

namespace HarnessError

def name : HarnessError → String
  | plain _ => "SagaTesterError"
  | configuration _ => "ConfigurationError"
  | unmatched .. => "UnmatchedEffectError"
  | testedCode .. => "TestedCodeError"
  | stopped .. => "DeadlockError"

def optionText : Option Nat → String
  | some n => toString n
  | none => "None"

/-- The name of a task in a message; a question mark stands for no name. -/
def taskLabel : Option String → String
  | some s => if s == "" then "?" else s
  | none => "?"

def message : HarnessError → String
  | plain m => m
  | configuration m => "Error in the configuration of SagaTester: " ++ m
  | unmatched m none => m
  | unmatched m (some step) => m ++ " (step " ++ toString step ++ ")"
  | testedCode e id name step =>
    "Error was thrown while running SagaTester in task " ++ taskLabel name ++ " (id " ++
      optionText id ++ ") (step " ++ optionText step ++ "): " ++ e.summary
  | stopped dump _ _ => dump.render

/-- Whether the message has a number in it that is too long. -/
def hasLong : HarnessError → Bool
  | testedCode e .. => (Value.error e).hasLong
  | stopped dump _ _ => dump.entries.any (·.wait.hasLong)
  | _ => false

end HarnessError

/-- What ends a run, or a procedure of it, early. -/
inductive Failure where
  | harness (h : HarnessError)
  | exn (e : Exn)

namespace Failure

def name : Failure → String
  | harness h => h.name
  | exn e => e.kind.name

def message : Failure → String
  | harness h => h.message
  | exn e => e.message

def hasLong : Failure → Bool
  | harness h => h.hasLong
  | exn e => (Value.error e).hasLong

def configuration (m : String) : Failure := harness (.configuration m)

end Failure

/-- The exception of a refusal. -/
def Refusal.at (r : Refusal) (origin : Origin) : Exn := ⟨r.kind, r.args, origin⟩

/-- The failure of a refusal that no script can see. -/
def Refusal.failure (r : Refusal) : Failure := .exn (r.at (.scheduler 0))

/-- A failure `f` whose text shows something: what is too long to be written is refused. -/
def reporting (long : Bool) (f : Failure) : Failure :=
  if long then (longRefusal none).failure else f

/-- The failure `f`, whose text shows `v`. -/
def Value.reportedIn (v : Value) (f : Failure) : Failure := reporting v.hasLong f

end Rehearsal
