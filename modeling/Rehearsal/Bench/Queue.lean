import Rehearsal.Expect.Matching
import Rehearsal.Failure

/-!
# The queue of actions

What takes and watchers are served from. A take removes the first action that matches its pattern,
a watcher only looks at it.
-/
namespace Rehearsal.Queue

variable {m : Type → Type} [Monad m]

/-- The first action that matches, and the queue without it. -/
def take? (holds : Value → Value → m Bool) (pattern : Value) :
    List Value → m (Except Refusal (Option (Value × List Value)))
  | [] => pure (.ok none)
  | a :: rest => do
    match ← actionMatches holds a pattern with
    | .error r => return .error r
    | .ok true => return .ok (some (a, rest))
    | .ok false =>
      return (← take? holds pattern rest).map fun r => r.map fun r => (r.1, a :: r.2)

/-- The first action that matches. -/
def peek? (holds : Value → Value → m Bool) (pattern : Value) :
    List Value → m (Except Refusal (Option Value))
  | [] => pure (.ok none)
  | a :: rest => do
    match ← actionMatches holds a pattern with
    | .error r => return .error r
    | .ok true => return .ok (some a)
    | .ok false => peek? holds pattern rest

/-- The failure of a take that nothing in the queue matches. -/
def unmatched (pattern : Value) (step : Nat) : Failure :=
  pattern.reportedIn (.harness (.unmatched
    ("Found a take action looking for an action of type " ++ pattern.repr ++
      ", but no such effective action exists. Add this action in the effective_actions config to "
        ++
      "solve this issue.") (some step)))

end Rehearsal.Queue
