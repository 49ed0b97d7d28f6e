import Rehearsal.Value.Basic

/-!
# Pending structures

What a blocked task waits for, in the shape of its request: one slot, a list of slots, or slots by
key. A slot is a task still awaited or a value already known. Only the slots at the top count;
what is nested deeper is only ever shown.
-/
namespace Rehearsal

inductive Pending where
  /-- The task with this id, still awaited. -/
  | task (id : Nat)
  /-- A slot whose value is known. -/
  | completed (v : Value)
  /-- The value of a task that waits for its children. -/
  | returned (v : Value)
  /-- The failure of a task that waits for its children. -/
  | failed (e : Exn)
  | value (v : Value)
  | list (items : List Pending)
  | tuple (items : List Pending)
  | keyed (frozen : Bool) (entries : List (Value × Pending))

namespace Pending

/-- The slots in order. -/
def slots : Pending → List Pending
  | list ps | tuple ps => ps
  | keyed _ es => es.map (·.2)
  | p => [p]

/-- The same shape with `f` applied to every slot. -/
def mapSlots (f : Pending → Pending) : Pending → Pending
  | list ps | tuple ps => list (ps.map f)
  | keyed _ es => keyed false (es.map fun e => (e.1, f e.2))
  | p => f p

/-- The awaited task of a slot. -/
def awaited? : Pending → Option Nat
  | task id => some id
  | _ => none

/-- The tasks that the slots wait for, in order. -/
def waitingOn (p : Pending) : List Nat := p.slots.filterMap awaited?

/-- The value of a slot; nothing while it is not known. -/
def slotValue : Pending → Value
  | completed v => v
  | _ => .null

/-- The values in the shape of the request. -/
def unwrap : Pending → Value
  | list ps | tuple ps => .list (ps.map slotValue)
  | keyed _ es => .dict ⟨false, es.map fun e => (e.1, slotValue e.2)⟩
  | p => slotValue p

/-- The structure a join waits for: its targets, each as an awaited task. -/
def ofTargets : Targets → Pending
  | .single m => task m.id
  | .listed _ ms => list (ms.map fun m => task m.id)
  | .keyed _ es => keyed false (es.map fun e => (e.1, task e.2.id))

end Pending

/-- The markers of a join or a cancel, in order. -/
def Targets.markers : Targets → List Marker
  | .single m => [m]
  | .listed _ ms => ms
  | .keyed _ es => es.map (·.2)

/-- Why a task is blocked. -/
inductive InterruptionKind where
  | generator | join | race | all | children
  deriving DecidableEq

namespace InterruptionKind

def name : InterruptionKind → String
  | generator => "generator"
  | join => "join"
  | race => "race"
  | all => "all"
  | children => "children"

def ofName? (s : String) : Option InterruptionKind :=
  [generator, join, race, all, children].find? fun k => k.name == s

/-- The tier a task has while it is blocked so. -/
def tier : InterruptionKind → WaitTier
  | generator | join => .generator
  | race => .race
  | all => .all
  | children => .children

end InterruptionKind

/-- Why a task cannot go on by itself. It is resolved once `answer` is there. -/
structure Interruption where
  kind : InterruptionKind
  pending : Pending
  dependencies : List Nat
  answer : Option Pending

namespace Interruption

def resolved (i : Interruption) : Bool := i.answer.isSome

def resolve (i : Interruption) (answer : Pending) : Interruption := { i with answer := some answer }

/-- The interruption of a task that waits for one child. -/
def onChild (id : Nat) : Interruption := ⟨.generator, .task id, [id], none⟩

end Interruption

end Rehearsal
