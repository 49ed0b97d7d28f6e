import Rehearsal.Engine.Step

/-!
# Runs

A run starts a root task and steps until nothing is left to do. Procedures of the scheduler can
also be run one at a time.
-/
namespace Rehearsal

variable {σ : Type}

namespace Config

/-- At most `fuel` steps, stopping at a final configuration. -/
def run (w : World σ) (o : RunOptions) : Nat → Config σ → Config σ
  | 0, c => c
  | fuel + 1, c => if c.isFinal then c else run w o fuel (c.step w o)

/-- What a final configuration ended with. -/
def failure? (c : Config σ) : Option Failure :=
  match c.control with
  | .raised e => some (.exn e)
  | .abort f => some f
  | _ => none

end Config

/-- More steps than any run that can be waited for. -/
def unboundedSteps : Nat := Nat.pow 2 62

namespace Machine

/-- Carries out one procedure of the scheduler. -/
def perform (w : World σ) (o : RunOptions) (m : Machine σ) (control : Control) :
    Except Failure Unit × Machine σ :=
  let c := Config.run w o unboundedSteps ⟨m, [], control⟩
  let m := { c.machine with handled := none }
  match c.failure? with
  | some f => (.error f, m)
  | none => (.ok (), m)

/-- The configuration a run of the generator `g` starts from: the root task is driven first, then
what has finished bubbles and the main loop begins. -/
def launch (m : Machine σ) (name : String) (g : Nat) : Config σ × Nat :=
  let (r, root) := m.registry.create name .now none false (some (.ofGenerator g)) none
  (⟨{ m with registry := r }, [.batch [], .loop root], .drive root (.send .null)⟩, root)

/-- Runs the generator `g` as the root task, and yields its result. -/
def runRoot (w : World σ) (o : RunOptions) (m : Machine σ) (name : String) (g : Nat) :
    Except Failure Value × Machine σ :=
  let (c, root) := m.launch name g
  let c := Config.run w o unboundedSteps c
  match c.failure? with
  | some f => (.error f, c.machine)
  | none => match c.machine.get? root with
    | some task => (.ok task.result, c.machine)
    | none => (.ok .null, c.machine)

end Machine

end Rehearsal
