import Rehearsal.Task.Basic

/-!
# Ready batches

Which tasks run next. A batch holds every selectable task that is "now", and those of the least
numeric tick present; the tasks that come last run only when nothing else is selectable.
-/
namespace Rehearsal

/-- A stable sort by wait state: ties keep their order. -/
def sortByPriority (tasks : List Task) : List Task :=
  tasks.mergeSort fun a b => a.wait.le b.wait

def tick? (t : Task) : Option Int :=
  match t.wait with
  | .tick n => some n
  | _ => none

/-- The least tick among the tasks. -/
def leastTick? (tasks : List Task) : Option Int := (tasks.filterMap tick?).min?

/-- Whether a selectable task belongs to the batch, given the least tick present. -/
def inBatch (cutoff : Option Int) (t : Task) : Bool :=
  match t.wait with
  | .now | .tier _ => true
  | .tick n => match cutoff with
    | some c => n ≤ c
    | none => false
  | .last => false

/-- The next batch among `tasks`, which stand in registration order. -/
def selectReadyBatch (tasks : List Task) : List Task :=
  let eligible := tasks.filter (·.isSelectable)
  let batch := eligible.filter (inBatch (leastTick? eligible))
  if batch.isEmpty then eligible.filter fun t => t.wait = .last else batch

end Rehearsal
