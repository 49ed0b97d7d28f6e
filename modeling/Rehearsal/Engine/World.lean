import Rehearsal.Failure

/-!
# The world around the scheduler

What the scheduler needs from outside: generators to resume, functions to call, a plan for every
call and handlers for the effects it does not interpret itself. A `World` answers with plain
functions on a state `σ` of its own; what it may know of the run is a `View`.
-/
namespace Rehearsal

/-- What a suspended generator is resumed with. -/
inductive Signal where
  | send (v : Value)
  | throw (e : Exn)

/-- What a generator does until it next gives up control. -/
inductive Response where
  | yielded (v : Value)
  | returned (v : Value)
  | raised (e : Exn)

/-- What a marker shows of its task. -/
structure Status where
  wait : Wait
  cancelled : Bool
  done : Bool

/-- What code outside the scheduler can read of a run. -/
structure View where
  steps : Nat
  status? : Nat → Option Status
  /-- The exception that is being handled around the code that is asked. -/
  handled : Option Exn

/-- No run at all. -/
def View.idle : View := ⟨0, fun _ => none, none⟩

/-- What a handler is told about the effect it answers. -/
structure Context where
  /-- The task the effect is interpreted for, a placeholder inside a race or gather. -/
  task : Marker
  inComposite : Bool
  step : Nat

/-- What a handler answers. -/
inductive Reaction where
  /-- Go on with a value. -/
  | advance (v : Value)
  /-- Block behind a new task that finishes with `v`; it is called "deferred" unless it has a
  name. -/
  | defer (v : Value) (wait : Wait) (name : Option String)
  /-- An answer that is neither. -/
  | invalid (v : Value)

structure World (σ : Type) where
  resume : View → Nat → Signal → σ → Response × σ
  /-- The plan of a call; the flag tells a fork from a call. -/
  plan : View → Call → Bool → σ → Except Failure CallPlan × σ
  invoke : View → Call → σ → Except Exn Value × σ
  /-- The handler registered for an effect. -/
  handler? : Effect → Option (View → Context → σ → Except Failure Reaction × σ)

end Rehearsal
