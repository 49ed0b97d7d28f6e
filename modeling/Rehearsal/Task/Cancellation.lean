import Rehearsal.Task.Registry

/-!
# Cancellation

Cancelling never stops a task: it flags the task and everything it owns at that moment, and tested
code may look at the flag.
-/
namespace Rehearsal.Registry

/-- The task `id` and what it owns, parents before their children, down to `depth` levels. -/
def subtreeTo (r : Registry) : Nat → Nat → List Nat
  | 0, _ => []
  | depth + 1, id =>
    match r.get? id with
    | some t => id :: t.children.flatMap (r.subtreeTo depth)
    | none => []

/-- The task `id` and everything it owns. Ownership is a forest, so no chain of children is longer
than the number of tasks. -/
def subtree (r : Registry) (id : Nat) : List Nat := r.subtreeTo (r.size + 1) id

def flagCancelled (r : Registry) (ids : List Nat) : Registry :=
  ids.foldl (fun r id => r.modify id fun t => { t with cancelled := true }) r

/-- Flags a task and everything it owns right now. -/
def cancelTree (r : Registry) (id : Nat) : Registry := r.flagCancelled (r.subtree id)

/-- Flags the trees of several tasks in turn, and lists what was flagged. -/
def cancelAll (r : Registry) (ids : List Nat) : Registry := ids.foldl cancelTree r

/-- What `cancelAll` flags, in order. Flags change no ownership. -/
def cancelledBy (r : Registry) (ids : List Nat) : List Nat := ids.flatMap r.subtree

/-- Cancels a task and cuts it off: its later failures reach nobody. -/
def letGo (r : Registry) (id : Nat) : Registry :=
  (r.cancelTree id).modify id fun t => { t with abandoned := true }

end Rehearsal.Registry
