import Rehearsal.Task.Basic

/-!
# The task registry

All tasks of one run, numbered in the order they were made. Unfinished tasks are pending, in
registration order; a task that retires moves from there to the buffer of finished tasks, which is
emptied by reaping.
-/
namespace Rehearsal

structure Registry where
  tasks : Array Task
  pending : List Nat
  finished : List Nat

namespace Registry

def empty : Registry := ⟨#[], [], []⟩

def size (r : Registry) : Nat := r.tasks.size

def get? (r : Registry) (id : Nat) : Option Task := r.tasks[id]?

def modify (r : Registry) (id : Nat) (f : Task → Task) : Registry :=
  { r with tasks := r.tasks.modify id f }

/-- Makes the next task and its parent's bond to it. -/
def create (r : Registry) (name : String) (wait : Wait) (parent : Option Nat) (detached : Bool)
    (coroutine : Option Coroutine) (entry : Option Entry) : Registry × Nat :=
  let id := r.size
  let r : Registry :=
    { r with tasks := r.tasks.push (Task.fresh id name wait parent detached coroutine entry)
             pending := r.pending ++ [id] }
  match parent with
  | some p => (r.modify p fun t => t.addChild id, id)
  | none => (r, id)

/-- The tasks with these ids. -/
def select (r : Registry) (ids : List Nat) : List Task := ids.filterMap r.get?

/-- The pending tasks in registration order. -/
def pendingTasks (r : Registry) : List Task := r.select r.pending

def isDone (r : Registry) (id : Nat) : Bool :=
  match r.get? id with
  | some t => t.done
  | none => false

/-- The nearest task at or above `id` that runs tested code; `id` itself where there is none. -/
def coroutineOwner (r : Registry) (id : Nat) : Nat := go id
where
  go (current : Nat) : Nat :=
    match r.get? current with
    | none => id
    | some t =>
      if t.coroutine.isSome then current
      else match t.parent with
        | none => id
        | some p => if p < current then go p else id

/-- Moves a pending task to the buffer of finished ones. -/
def retire (r : Registry) (id : Nat) : Registry :=
  if r.pending.contains id then
    { r with pending := r.pending.erase id, finished := r.finished ++ [id] }
  else r

/-- Empties the buffer of finished tasks. -/
def reap (r : Registry) : Registry × List Nat := ({ r with finished := [] }, r.finished)

/-- A structure with the results of finished tasks filled in. -/
def settleSlot (r : Registry) (slot : Pending) : Pending :=
  match slot with
  | .task id => match r.get? id with
    | some t => if t.done then .completed t.result else slot
    | none => slot
  | slot => slot

def settleFinished (r : Registry) (p : Pending) : Pending := p.mapSlots r.settleSlot

end Registry

end Rehearsal
