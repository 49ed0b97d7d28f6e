import Rehearsal.Options
import Rehearsal.Task.Cancellation
import Rehearsal.Engine.Coroutine

/-!
# The scheduler's state

A `Machine` holds what a run has built so far. A `Config` adds what is going on: the `Control`
says what happens next, and the `Frame`s below it what is waiting for that to end.
-/
namespace Rehearsal

structure Machine (σ : Type) where
  registry : Registry
  /-- The step counter. -/
  steps : Nat
  /-- Diagnostics written so far. -/
  trace : Array String
  /-- The exception being handled while a task that failed at its start tells those above it. -/
  handled : Option Exn
  outer : σ

/-- How the interpretation of one effect ends. -/
inductive Answer where
  /-- The task goes on with a value. -/
  | advance (v : Value)
  /-- The task is blocked. -/
  | block (i : Interruption)
  /-- A generator is entered as part of the task. -/
  | enter (g : Nat)

/-- The loop over the members of a race or gather. -/
structure Composite where
  task : Nat
  isRace : Bool
  keyed : Bool
  /-- The placeholders made so far, by key. -/
  made : List (Value × Nat)
  rest : List (Value × Value)

/-- What waits for the current activity to end. -/
inductive Frame where
  /-- The task yielded the effect being interpreted. -/
  | driving (t : Nat)
  /-- A member of a race or gather is being interpreted for this placeholder. -/
  | member (placeholder : Nat)
  | composite (c : Composite)
  /-- The effect forked this task, which was started at once. -/
  | forked (child : Nat)
  /-- The rest of a batch. -/
  | batch (rest : List Nat)
  /-- A round of bubbling: what finished, and the pending tasks still to look at. -/
  | round (finished rest : List Nat)
  /-- The main loop of the run of this root task. -/
  | loop (root : Nat)

/-- What happens next. -/
inductive Control where
  /-- Whatever was going on has ended. -/
  | done
  /-- An exception looks for a frame that catches it. -/
  | raised (e : Exn)
  /-- The run is given up. -/
  | abort (f : Failure)
  | answer (a : Answer)
  | drive (t : Nat) (signal : Signal)
  | interpret (t : Nat) (effect : Value) (inComposite : Bool)
  | runTask (t : Nat)
  | start (t : Nat)
  | complete (t : Nat) (v : Value)
  | fail (t : Nat) (e : Exn)
  | propagate (t : Nat) (e : Exn)
  | bubble (finished : List Nat)

structure Config (σ : Type) where
  machine : Machine σ
  stack : List Frame
  control : Control

namespace Failure

/-- A failure among the scheduler's doings: ordinary exceptions look for a task to be thrown into,
everything else gives up the run. -/
def control : Failure → Control
  | exn e => if e.kind.isOrdinary then .raised e else .abort (.exn e)
  | harness h => .abort (.harness h)

end Failure

namespace Machine

variable {σ : Type}

def initial (outer : σ) : Machine σ := ⟨.empty, 0, #[], none, outer⟩

def modify (m : Machine σ) (t : Nat) (f : Task → Task) : Machine σ :=
  { m with registry := m.registry.modify t f }

def get? (m : Machine σ) (t : Nat) : Option Task := m.registry.get? t

def nameOf (m : Machine σ) (t : Nat) : String :=
  match m.get? t with
  | some task => task.name
  | none => ""

/-- An exception made by the scheduler itself. -/
def exception (m : Machine σ) (kind : ErrorClass) (args : List Value) : Exn :=
  ⟨kind, args, .scheduler m.steps⟩

/-- The look-up of an unknown task. -/
def unknownTask (m : Machine σ) (id : Nat) : Exn := m.exception .key [.int id]

/-- Going on with a task that nothing has been resolved for. -/
def nothingToConsume (m : Machine σ) (id : Nat) : Exn :=
  m.exception .runtime
    [.text ("task " ++ toString id ++ " has no resolved interruption to consume")]

def view (m : Machine σ) : View where
  steps := m.steps
  status? id := (m.get? id).map fun t => ⟨t.wait, t.cancelled, t.done⟩
  handled := m.handled

def create (m : Machine σ) (name : String) (wait : Wait) (parent : Option Nat) (detached : Bool)
    (entry : Option Entry) : Machine σ × Nat :=
  let (r, id) := m.registry.create name wait parent detached none entry
  ({ m with registry := r }, id)

def note (m : Machine σ) (line : String) : Machine σ := { m with trace := m.trace.push line }

/-- The failure to write a report. -/
def unwritten (m : Machine σ) (r : Refusal) : Failure := .exn (r.at (.scheduler m.steps))

/-- Writes the tasks about to run and the tree of pending tasks. -/
def noteUnblocking (o : RunOptions) (batch : List Task) (m : Machine σ) :
    Except Failure (Machine σ) :=
  if o.debug.unblock.applies batch then
    match m.registry.renderTasks batch, renderTaskTree m.registry.pendingTasks with
    | .ok running, .ok tree =>
      .ok (m.note ("-- UNBLOCKING:\n" ++ running ++ "\n-- TREE:\n" ++ tree ++ "\n"))
    | .error r, _ | _, .error r => .error (m.unwritten r)
  else .ok m

/-- Writes the finished tasks and the pending ones. -/
def noteBubbling (o : RunOptions) (finished : List Task) (m : Machine σ) :
    Except Failure (Machine σ) :=
  if o.debug.bubble.applies finished then
    match m.registry.renderTasks finished,
      m.registry.renderPendingTasks m.registry.pendingTasks with
    | .ok bubbled, .ok tree =>
      .ok (m.note ("-- TASKS TO BUBBLE:\n" ++ bubbled ++ "\n-- TREE:\n" ++ tree ++ "\n"))
    | .error r, _ | _, .error r => .error (m.unwritten r)
  else .ok m

/-- Writes why a task is blocked. -/
def noteInterrupt (o : RunOptions) (t : Task) (m : Machine σ) : Machine σ :=
  if o.debug.interrupt.applies [t] then
    let kind := match t.interruption with
      | some i => i.kind.name
      | none => "None"
    m.note ("-- INTERRUPT:\n" ++ t.header ++ " kind: " ++ kind ++ " dependencies: [" ++
      idList (t.dependencies m.registry.pendingTasks) ++ "]\n")
  else m

/-- Blocks a task. -/
def suspend (o : RunOptions) (m : Machine σ) (t : Nat) (i : Interruption) : Machine σ :=
  let m := m.modify t fun task => task.block i
  match m.get? t with
  | some task => m.noteInterrupt o task
  | none => m

/-- Lets go of finished children. While others live, the task is blocked behind them with what it
holds, and its generators are gone; otherwise nothing holds it. -/
def holdForChildren (o : RunOptions) (m : Machine σ) (t : Nat) (held : Pending) :
    Bool × Machine σ :=
  match m.get? t with
  | none => (false, m)
  | some task =>
    let live := task.children.filter fun c => !m.registry.isDone c
    let m := m.modify t fun task => { task with children := live }
    if live.isEmpty then (false, m)
    else
      let m := m.modify t fun task => { task with coroutine := none }
      (true, m.suspend o t ⟨.children, held, live, none⟩)

/-- Ends a task for good. -/
def finalize (m : Machine σ) (t : Nat) (result : Value) : Machine σ :=
  let m := m.modify t fun task => task.finish result
  { m with registry := m.registry.retire t }

/-- The computation of a task returned: it waits for its children, then finishes. -/
def complete (o : RunOptions) (m : Machine σ) (t : Nat) (v : Value) : Machine σ :=
  match m.holdForChildren o t (.returned v) with
  | (true, m) => m
  | (false, m) => m.finalize t v

/-- An exception escaped a task: what it owns is cancelled, and it finishes once its children
have. A task fails only once. -/
def fail (o : RunOptions) (m : Machine σ) (t : Nat) (e : Exn) : Option (Machine σ) :=
  match m.get? t with
  | none => none
  | some task =>
    if task.error.isSome then none
    else
      let m := m.modify t fun task => { task with error := some e }
      let m := { m with registry := m.registry.cancelAll task.children }
      match m.holdForChildren o t (.failed e) with
      | (true, m) => some m
      | (false, m) => some (m.finalize t (.error e))

/-- The report of a step counter past its ceiling, or of a deadlock. Where it cannot be written
there is no report. -/
def stopped (m : Machine σ) (header : String) (reason : StopReason) : Failure :=
  match m.registry.dump header with
  | .ok dump => .harness (.stopped dump m.steps reason)
  | .error r => m.unwritten r

def deadlock (m : Machine σ) : Failure := m.stopped "Deadlock: " .deadlock

/-- Counts a step; refused past the ceiling. -/
def tick (o : RunOptions) (m : Machine σ) : Except Failure Unit × Machine σ :=
  let m := { m with steps := m.steps + 1 }
  if m.steps > o.stepLimit then
    (.error (m.stopped ("Step limit of " ++ toString o.stepLimit ++ " exceeded: ") .stepLimit), m)
  else (.ok (), m)

end Machine

end Rehearsal
