import Rehearsal.Engine.World

/-!
# Coroutines

A coroutine is a stack of generators resumed as one computation. A generator that ends hands its
value, or its exception, to the one below it; only when the last one ends is the coroutine done.
-/
namespace Rehearsal

/-- How far a coroutine got. -/
inductive Progress where
  | suspended (effect : Value)
  | finished (v : Value)
  | raised (e : Exn)

namespace Coroutine

variable {σ : Type}

/-- Resumes the innermost of `frames` and unwinds those that end. A fatal exception unwinds
nothing. -/
def advance (resume : Nat → Signal → σ → Response × σ) (spent : Exn) :
    Signal → List Nat → σ → Progress × List Nat × σ
  | _, [], s => (.raised spent, [], s)
  | signal, g :: below, s =>
    match resume g signal s with
    | (.yielded v, s) => (.suspended v, g :: below, s)
    | (.returned v, s) =>
      if below.isEmpty then (.finished v, [], s) else advance resume spent (.send v) below s
    | (.raised e, s) =>
      if e.kind.isFatal then (.raised e, g :: below, s)
      else if below.isEmpty then (.raised e, [], s)
      else advance resume spent (.throw e) below s

/-- The signal that reaches the innermost generator: nothing can be sent before the start. -/
def signalFor (c : Coroutine) : Signal → Signal
  | .send v => if c.started then .send v else .send .null
  | .throw e => .throw e

/-- The exception of a coroutine whose generators have all ended. -/
def spent (steps : Nat) : Exn := ⟨.index, [.text "list index out of range"], .scheduler steps⟩

/-- Resumes a coroutine with a signal. -/
def resume (w : World σ) (view : View) (c : Coroutine) (signal : Signal) (s : σ) :
    Progress × Coroutine × σ :=
  let (p, frames, s) := advance (w.resume view) (spent view.steps) (c.signalFor signal) c.frames s
  (p, ⟨frames, true⟩, s)

/-- Starts a generator on top of the coroutine. -/
def enter (w : World σ) (view : View) (c : Coroutine) (g : Nat) (s : σ) :
    Progress × Coroutine × σ :=
  let (p, frames, s) := advance (w.resume view) (spent view.steps) (.send .null) (g :: c.frames) s
  (p, ⟨frames, c.started⟩, s)

end Coroutine

end Rehearsal
