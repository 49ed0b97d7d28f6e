import Rehearsal.Proofs.Bench.Timing
import Rehearsal.Proofs.Engine.Lingering

/-!
# What detached tasks leave of a result

A run returns an object, not what the object holds. Whether it waits for detached tasks makes no
difference to which value it returns. But a list that the root has lent to a detached task is shown
as that task has left it.
-/
namespace Rehearsal

open Script

namespace Setup

variable {setup : Setup} {o : RunOptions} {s : Bench} {saga : Value} {args : List Value}

/-- The run that the saga leads to, called on the bench, returns. -/
def Returns (setup : Setup) (o : RunOptions) (s : Bench) (saga : Value) (args : List Value) :
    Prop :=
  ∀ (g : Nat) (memory : Memory),
    (Script.call setup.program .idle saga args []).run s.memory = (.ok (.generator g), memory) →
    (Config.run setup.world o unboundedSteps
      (Config.launched { s with memory } saga.callName g)).Returned

/-- **A rehearsal that does not wait for detached tasks returns the same value**, which is shown as
it stands at the end of the one and of the other. -/
theorem waiting_returns_same {x : Value} {m : Machine Bench}
    (returns : setup.Returns (o.waiting true) s saga args)
    (h : setup.run (o.waiting true) (.initial s) saga args = (.ok x, m)) :
    ∃ v m', x = m.outer.memory.shown v ∧ m'.steps ≤ m.steps ∧
      setup.run (o.waiting false) (.initial s) saga args = (.ok (m'.outer.memory.shown v), m') := by
  unfold Returns at returns
  rw [run_initial] at h ⊢
  generalize (Script.call setup.program .idle saga args []).run s.memory = called at returns h
  obtain ⟨r, memory⟩ := called
  cases r with
  | error e => cases h
  | ok f =>
    cases f with
    | generator g =>
      obtain ⟨_, k, hk, _, hreturned, hend, j, hj, hmachine⟩ := Config.exists_shorter_launched
        setup.world o { s with memory } saga.callName g (returns g memory rfl)
      -- the shorter run has come to its end long before its bound
      have hrest : Config.run setup.world (o.waiting false) unboundedSteps
          (Config.launched { s with memory } saga.callName g) =
          Config.run setup.world (o.waiting false) k
            (Config.launched { s with memory } saga.callName g) := by
        obtain ⟨d, hd⟩ := Nat.exists_eq_add_of_le hk
        rw [hd, Config.run_add,
          Config.run_of_isFinal setup.world _ _ (Config.Returned.isFinal hreturned)]
      dsimp only at h ⊢
      obtain ⟨hx, rfl⟩ := Prod.mk.inj h
      rw [hrest, hend]
      cases hv : (Config.run setup.world (o.waiting true) unboundedSteps
          (Config.launched { s with memory } saga.callName g)).ending with
      | error f => rw [hv] at hx; cases hx
      | ok v =>
        rw [hv] at hx
        refine ⟨v, _, (Except.ok.inj hx).symm, ?_, rfl⟩
        rw [hmachine]
        exact Config.steps_run_mono setup.world (o.waiting true) _ hj
    | _ => cases h

end Setup

/-- The root makes a list, lends it to a task that it spawns, and returns it. The spawned task
changes it after a delay. -/
def lending : Program := ⟨[
  ⟨⟨"changer", .generator⟩, ["x"],
    [.yield none (.const (.effect (.delay 1))),
      .assignItem (.var "x") (.const (.int 0)) (.const (.int 2))]⟩,
  ⟨⟨"root", .generator⟩, [],
    [.assign "x" (.list [.const (.int 1)]),
      .yield none
        (.effect (.fork [] true) [.const (.function ⟨"changer", .generator⟩), .var "x"]),
      .ret (.var "x")]⟩]⟩

/-- The root's list holds another number if the spawned task is waited for. -/
theorem lent_list_changes :
    let root : Value := .function ⟨"root", .generator⟩
    ((Setup.ofProgram lending).run (RunOptions.default.waiting true) (.initial .empty) root []).1 =
        .ok (.list [.int 2]) ∧
      ((Setup.ofProgram lending).run (RunOptions.default.waiting false) (.initial .empty) root
        []).1 = .ok (.list [.int 1]) :=
  ⟨rfl, rfl⟩

end Rehearsal
