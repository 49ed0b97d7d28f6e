import Rehearsal.Bench.Handling
import Rehearsal.Bench.Planner

/-!
# Rehearsals

A setup of the bench is a world for the scheduler. `Setup.run` runs a generator function of a
script in it.
-/
namespace Rehearsal

mutual

/-- The structure with `f` applied to the values in it. -/
def Pending.mapValues (f : Value → Value) : Pending → Pending
  | .task id => .task id
  | .completed v => .completed (f v)
  | .returned v => .returned (f v)
  | .failed e => .failed (e.mapArgs f)
  | .value v => .value (f v)
  | .list ps => .list (mapSlotValues f ps)
  | .tuple ps => .tuple (mapSlotValues f ps)
  | .keyed frozen es => .keyed frozen (mapEntryValues f es)

def mapSlotValues (f : Value → Value) : List Pending → List Pending
  | [] => []
  | p :: ps => p.mapValues f :: mapSlotValues f ps

def mapEntryValues (f : Value → Value) : List (Value × Pending) → List (Value × Pending)
  | [] => []
  | (k, p) :: es => (k, p.mapValues f) :: mapEntryValues f es

end

def Interruption.mapValues (f : Value → Value) (i : Interruption) : Interruption :=
  { i with pending := i.pending.mapValues f, answer := i.answer.map (·.mapValues f) }

/-- The task with `f` applied to what it ended with and what it waits for. -/
def Task.mapValues (f : Value → Value) (t : Task) : Task :=
  { t with
    result := f t.result
    error := t.error.map (·.mapArgs f)
    interruption := t.interruption.map (·.mapValues f) }

/-- The actions dispatched so far, as they stand now. -/
def Bench.dispatchedNow (s : Bench) : List Value := s.dispatched.map s.memory.shown

/-- The tasks, with their values as they stand now. -/
def Machine.tasksNow (m : Machine Bench) : Array Task :=
  m.registry.tasks.map (·.mapValues m.outer.memory.now)

namespace Setup

/-- The world that a setup makes for the scheduler. -/
def world (setup : Setup) : World Bench where
  resume view g signal s :=
    let (r, memory) := Script.resume setup.program view g signal s.memory
    (r, { s with memory })
  plan view call forked s := (Planner.plan setup view call forked).run s
  invoke view call s :=
    let (r, memory) := (Script.call setup.program view call.fn call.args call.kwargs).run s.memory
    (r, { s with memory })
  handler? e := (setup.handlers.lookup? e.classes).map fun h view context s =>
    (h.react setup view context e).run s

/-- The refusal of a scheduler that has run already. -/
def spentScheduler : HarnessError :=
  .plain "A TaskScheduler runs a single saga; create a new one"

/-- Runs a generator function as the root task of a scheduler that has not run yet. What it returns
is shown as it stands at the end of the run. -/
def run (setup : Setup) (o : RunOptions) (m : Machine Bench) (saga : Value) (args : List Value) :
    Except Failure Value × Machine Bench :=
  if m.registry.size ≠ 0 then (.error (.harness spentScheduler), m)
  else
    let (r, memory) := (Script.call setup.program m.view saga args []).run m.outer.memory
    let m := { m with outer := { m.outer with memory } }
    match r with
    | .error e => (.error (.exn e), m)
    | .ok (.generator g) =>
      let (r, m) := m.runRoot setup.world o saga.callName g
      (r.map m.outer.memory.shown, m)
    | .ok _ => (.error (.configuration (saga.callName ++ " must be a generator function")), m)

end Setup

end Rehearsal
