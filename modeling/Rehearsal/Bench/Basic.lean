import Rehearsal.Bench.Queue
import Rehearsal.Bench.Selection
import Rehearsal.Bench.StandIn
import Rehearsal.Engine.Run
import Rehearsal.Expect.Actions
import Rehearsal.Expect.Calls
import Rehearsal.Handler.Linearization
import Rehearsal.Script.Eval

/-!
# The bench

What stands around the scheduler when a script is rehearsed: the memory of the script, the ledgers
of what is expected, the queue that takes are served from, and the actions dispatched so far. A
`Setup` says how calls are planned and which effects have handlers.
-/
namespace Rehearsal

/-- What a run keeps beside the scheduler. -/
structure Bench where
  memory : Script.Memory
  calls : CallLedger
  actions : ActionLedger
  queue : List Value
  dispatched : List Value

namespace Bench

def empty : Bench := ⟨.empty, .empty, .empty, [], []⟩

end Bench

/-- How calls and forks are planned. -/
inductive Planner where
  /-- Everything is called at once. -/
  | real
  /-- The plans of some functions by name; all else is called at once. The last of several plans
  of a name counts. -/
  | table (plans : List (String × CallPlan))
  /-- By the ledger of expected calls. -/
  | expecting (failOnUnconfigured countsSteps : Bool)

/-- How an effect is handled. -/
inductive Handling where
  | put
  | select
  | take
  | watch
  /-- Go on with the marker of the task at hand. -/
  | marker
  /-- Answer with a value that is no reaction. -/
  | invalid (v : Value)
  /-- Go on with what a function makes of the effect. -/
  | advance (fn : Value)
  /-- Block behind a task that finishes with what a function makes of the effect. -/
  | defer (fn : Value) (wait : Wait) (name : Option String)

structure Setup where
  program : Script.Program
  planner : Planner
  selection : Selection
  handlers : HandlerTable Handling

/-- What is done to the bench in the course of a run. -/
abbrev Act := ExceptT Failure (StateM Bench)

namespace Act

/-- What a computation of the script ended with. -/
def attempt {α : Type} (x : Script.Eval α) : Act (Except Exn α) := do
  let s ← get
  let (r, memory) := x.run s.memory
  set { s with memory }
  return r

/-- A computation of the script, whose exception becomes a failure. -/
def ofScript {α : Type} (x : Script.Eval α) : Act α := do
  match ← attempt x with
  | .ok a => return a
  | .error e => throw (.exn e)

def refuse {α : Type} (h : HarnessError) : Act α := throw (.harness h)

end Act

end Rehearsal
