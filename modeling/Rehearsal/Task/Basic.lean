import Rehearsal.Task.Pending

/-!
# Tasks

A task is a unit of scheduling and of ownership. One that runs tested code has a coroutine, a
stack of generators; one that has not been started has an entry, from which its value or its
generator comes.
-/
namespace Rehearsal

/-- A function and the arguments it is called with. -/
structure Call where
  fn : Value
  args : List Value
  kwargs : List (String × Value)

def Call.name (c : Call) : String := c.fn.callName

/-- How a call produces its value, and when. An `error` is raised; otherwise the function is
invoked, or the output is the value. -/
structure CallPlan where
  invoke : Bool
  output : Value
  error : Option Exn
  wait : Wait

/-- The plan that calls the function at once. -/
def CallPlan.real : CallPlan := ⟨true, .null, none, .now⟩

/-- The deferred start of a task. -/
inductive Entry where
  | planned (plan : CallPlan) (call : Call)
  | constant (v : Value)

/-- A stack of generators resumed as one computation, innermost first. -/
structure Coroutine where
  frames : List Nat
  started : Bool

/-- The coroutine of one generator. -/
def Coroutine.ofGenerator (g : Nat) : Coroutine := ⟨[g], false⟩

structure Task where
  id : Nat
  name : String
  wait : Wait
  parent : Option Nat
  detached : Bool
  coroutine : Option Coroutine
  entry : Option Entry
  /-- Ids of the tasks it has to wait for before it is finished. -/
  children : List Nat
  interruption : Option Interruption
  result : Value
  error : Option Exn
  cancelled : Bool
  running : Bool
  done : Bool
  abandoned : Bool

namespace Task

/-- A task that has not been started. -/
def fresh (id : Nat) (name : String) (wait : Wait) (parent : Option Nat) (detached : Bool)
    (coroutine : Option Coroutine) (entry : Option Entry) : Task :=
  { id, name, wait, parent, detached, coroutine, entry,
    children := [], interruption := none, result := .null, error := none,
    cancelled := false, running := false, done := false, abandoned := false }

/-- The handle of the task. -/
def marker (t : Task) : Marker := ⟨t.id, t.name, true⟩

/-- Held by an interruption that is not resolved. -/
def isBlocked (t : Task) : Bool :=
  match t.interruption with
  | some i => !i.resolved
  | none => false

/-- Ready to be picked for a batch. -/
def isSelectable (t : Task) : Bool :=
  !t.done && t.children.isEmpty && !t.running && !t.isBlocked

/-- Takes on a child, once. -/
def addChild (t : Task) (child : Nat) : Task :=
  if t.children.contains child then t else { t with children := t.children ++ [child] }

def removeChildren (t : Task) (ids : List Nat) : Task :=
  { t with children := t.children.filter fun c => !ids.contains c }

def block (t : Task) (i : Interruption) : Task :=
  { t with interruption := some i, wait := .tier i.kind.tier }

/-- The task with what it waits for replaced. -/
def awaiting (t : Task) (i : Interruption) : Task := { t with interruption := some i }

def finish (t : Task) (result : Value) : Task :=
  { t with result, wait := .now, interruption := none, coroutine := none, done := true }

end Task

end Rehearsal
