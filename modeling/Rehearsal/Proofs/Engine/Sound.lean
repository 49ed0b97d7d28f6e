import Rehearsal.Proofs.Engine.Core

/-!
# Sound configurations

`Sound` says of every control what the stack below it looks like, which task is in its hands, and
how that task stands, once the tasks in `begun` have been started. It holds of every configuration
of a run. A run that is given up keeps no more than the forest.
-/
namespace Rehearsal

namespace Task

/-- About to be resumed with the signal. Nothing is thrown into a task that has been let go. -/
structure Poised (s : Signal) (t : Task) : Prop extends t.Free where
  coroutine : t.coroutine.isSome = true
  heeded : ∀ e, s = .throw e → t.abandoned = false

/-- What it waited for has been answered, and it has not gone on yet. -/
structure Answered (t : Task) (i : Interruption) (a : Pending) : Prop where
  interruption : t.interruption = some i
  answer : i.answer = some a
  done : t.done = false
  running : t.running = false
  error : i.kind ≠ .children → t.error = none
  childless : i.kind = .children → t.children = []
  holds : i.kind = .children → t.Holds a

end Task

/-- What an answer to task `t` promises: a task is blocked behind unfinished ones only. -/
def Answer.Stands (r : Registry) (t : Nat) : Answer → Prop
  | .block i => r.Awaits t i ∧ ∀ d ∈ i.dependencies, r.Hears [] d
  | _ => True

inductive Sound (begun : Nat → Prop) (r : Registry) : List Frame → Control → Prop
  | resting {stack : List Frame} (core : Core begun r [] stack none) (nested : Nested none stack) :
      Sound begun r stack .done
  | looking (core : Core begun r [] [.loop 0] none) (heard : r.finished = []) :
      Sound begun r [.loop 0] .done
  | settled (forest : r.Forest) (root : r.isDone 0 = true) : Sound begun r [] .done
  | raised {t : Nat} {stack : List Frame} (e : Exn) (core : Core begun r [] stack none)
      (nested : Nested (some t) stack) : Sound begun r stack (.raised e)
  | answered {t : Nat} {stack : List Frame} {a : Answer} (core : Core begun r [] stack none)
      (nested : Nested (some t) stack) (stands : a.Stands r t) : Sound begun r stack (.answer a)
  | interpreting {t : Nat} {stack : List Frame} (effect : Value) (inComposite : Bool)
      (core : Core begun r [] stack none) (nested : Nested (some t) stack) :
      Sound begun r stack (.interpret t effect inComposite)
  | driving {t : Nat} {u : Task} {stack : List Frame} {s : Signal}
      (core : Core begun r [] stack (some t))
      (nested : Nested none stack) (task : r.get? t = some u) (poised : u.Poised s) :
      Sound begun r stack (.drive t s)
  | selected {t : Nat} {u : Task} {stack : List Frame} (core : Core begun r [] stack (some t))
      (nested : Nested none stack) (task : r.get? t = some u)
      (ready : (u.Fresh ∧ ¬ begun t) ∨ ∃ i a, u.Answered i a) : Sound begun r stack (.runTask t)
  | starting {t : Nat} {u : Task} {stack : List Frame} (core : Core begun r [] stack (some t))
      (nested : Nested none stack) (task : r.get? t = some u) (fresh : u.Fresh)
      (first : ¬ begun t) : Sound begun r stack (.start t)
  | completing {t : Nat} {u : Task} {stack : List Frame} (v : Value)
      (core : Core begun r [] stack (some t)) (nested : Nested none stack)
      (task : r.get? t = some u)
      (free : u.Free) (stopped : u.running = false) : Sound begun r stack (.complete t v)
  | failing {t : Nat} {u : Task} {stack : List Frame} (e : Exn)
      (core : Core begun r [] stack (some t))
      (nested : Nested none stack) (task : r.get? t = some u) (free : u.Free)
      (stopped : u.running = false) : Sound begun r stack (.fail t e)
  | propagating {t : Nat} {u : Task} {stack : List Frame} (e : Exn)
      (core : Core begun r [] stack none)
      (nested : Nested none stack) (task : r.get? t = some u)
      (parent : ∀ p, u.parent = some p →
        ∃ up, r.get? p = some up ∧ up.done = false ∧ up.children ≠ []) :
      Sound begun r stack (.propagate t e)
  | bubbling {ids : List Nat} (core : Core begun r ids [.loop 0] none) (heard : r.finished = [])
      (ended : ∀ d ∈ ids, r.isDone d = true) : Sound begun r [.loop 0] (.bubble ids)
  | aborted {stack : List Frame} (f : Failure) (forest : r.Forest) : Sound begun r stack (.abort f)

variable {σ : Type} {begun : Nat → Prop}

/-- The registry, the stack and the control of a configuration go together. -/
def Config.Sound (begun : Nat → Prop) (c : Config σ) : Prop :=
  Rehearsal.Sound begun c.machine.registry c.stack c.control

/-- Ownership is a forest in whatever goes on. -/
theorem Sound.forest {r : Registry} {stack : List Frame} {control : Control}
    (h : Sound begun r stack control) : r.Forest := by
  cases h <;> first | exact Core.forest ‹_› | assumption

/-- A failure of the scheduler's doings either looks for a task that it reaches, or gives up. -/
theorem Sound.failure {r : Registry} {t : Nat} {stack : List Frame}
    (core : Core begun r [] stack none)
    (nested : Nested (some t) stack) (f : Failure) : Sound begun r stack f.control := by
  cases f with
  | exn e =>
    unfold Failure.control
    dsimp only
    split
    · exact .raised e core nested
    · exact .aborted _ core.forest
  | harness h => exact .aborted _ core.forest

end Rehearsal
