import Mathlib.Data.List.Nodup
import Rehearsal.Engine.Step

/-!
# How activities nest

The stack of a run is no arbitrary list of frames. On top of the main loop stands a batch or a
round; above it, tasks that are being driven alternate with what their effects have set going.
`Nested` says so, and `runners` lists the tasks that run, innermost first.
-/
namespace Rehearsal

def Frame.runner? : Frame → Option Nat
  | .driving t => some t
  | .member p => some p
  | _ => none

/-- The tasks that are running, innermost first. -/
def runners (stack : List Frame) : List Nat := stack.filterMap Frame.runner?

/-- `Nested (some t) stack`: an effect that task `t` yielded is being interpreted. `Nested none
stack`: something of the scheduler itself goes on. -/
inductive Nested : Option Nat → List Frame → Prop
  | batch (rest : List Nat) (root : Nat) : Nested none [.batch rest, .loop root]
  | round (finished rest : List Nat) (root : Nat) : Nested none [.round finished rest, .loop root]
  | forked (child : Nat) {t : Nat} {stack : List Frame} (h : Nested (some t) stack) :
      Nested none (.forked child :: stack)
  | composite (c : Composite) {stack : List Frame} (h : Nested (some c.task) stack) :
      Nested none (.composite c :: stack)
  | driving (t : Nat) {stack : List Frame} (h : Nested none stack) :
      Nested (some t) (.driving t :: stack)
  | member (p : Nat) {c : Composite} {stack : List Frame} (hp : ∃ key, (key, p) ∈ c.made)
      (h : Nested none (.composite c :: stack)) :
      Nested (some p) (.member p :: .composite c :: stack)

@[simp] theorem runners_nil : runners [] = [] := rfl

@[simp] theorem runners_driving (t : Nat) (stack : List Frame) :
    runners (.driving t :: stack) = t :: runners stack := rfl

@[simp] theorem runners_member (p : Nat) (stack : List Frame) :
    runners (.member p :: stack) = p :: runners stack := rfl

@[simp] theorem runners_composite (c : Composite) (stack : List Frame) :
    runners (.composite c :: stack) = runners stack := rfl

@[simp] theorem runners_forked (child : Nat) (stack : List Frame) :
    runners (.forked child :: stack) = runners stack := rfl

@[simp] theorem runners_batch (rest : List Nat) (stack : List Frame) :
    runners (.batch rest :: stack) = runners stack := rfl

@[simp] theorem runners_round (finished rest : List Nat) (stack : List Frame) :
    runners (.round finished rest :: stack) = runners stack := rfl

@[simp] theorem runners_loop (root : Nat) (stack : List Frame) :
    runners (.loop root :: stack) = runners stack := rfl

namespace Nested

/-- Interpreting for a task means that it runs, on top of a scheduler's activity. -/
theorem inv_some {t : Nat} {stack : List Frame} (h : Nested (some t) stack) :
    ∃ f below, stack = f :: below ∧ (f = .driving t ∨ f = .member t) ∧ Nested none below := by
  cases h with
  | driving _ h => exact ⟨_, _, rfl, Or.inl rfl, h⟩
  | member _ _ h => exact ⟨_, _, rfl, Or.inr rfl, h⟩

theorem runner_mem {t : Nat} {stack : List Frame} (h : Nested (some t) stack) :
    t ∈ runners stack := by
  obtain ⟨f, below, rfl, rfl | rfl, _⟩ := h.inv_some <;> simp

/-- A race or gather part way through belongs to a task that runs. -/
theorem composite_runner {c : Composite} {stack : List Frame} {who : Option Nat}
    (h : Nested who stack) (hc : .composite c ∈ stack) : c.task ∈ runners stack := by
  induction h with
  | batch => simp at hc
  | round => simp at hc
  | forked child _ ih =>
    rcases List.mem_cons.mp hc with hc | hc
    · cases hc
    · exact ih hc
  | composite c' h ih =>
    rcases List.mem_cons.mp hc with hc | hc
    · cases hc
      exact h.runner_mem
    · exact ih hc
  | driving t _ ih =>
    rcases List.mem_cons.mp hc with hc | hc
    · cases hc
    · exact List.mem_cons_of_mem _ (ih hc)
  | member p _ _ ih =>
    rcases List.mem_cons.mp hc with hc | hc
    · cases hc
    · exact List.mem_cons_of_mem _ (ih hc)

/-- The races and gathers below the interpretation of an effect belong to other tasks. -/
theorem composite_ne {t : Nat} {c : Composite} {stack : List Frame} (h : Nested (some t) stack)
    (hn : (runners stack).Nodup) (hc : .composite c ∈ stack) : c.task ≠ t := by
  obtain ⟨f, below, rfl, hf, hbelow⟩ := h.inv_some
  have hmem : .composite c ∈ below := by
    rcases List.mem_cons.mp hc with he | hm
    · rcases hf with rfl | rfl <;> cases he
    · exact hm
  have hrun : t ∉ runners below := by
    rcases hf with rfl | rfl
    · exact (List.nodup_cons.mp hn).1
    · exact (List.nodup_cons.mp hn).1
  intro he
  exact hrun (he ▸ hbelow.composite_runner hmem)

/-- Only a scheduler's activity stands right on top of the main loop. -/
theorem ne_loop {who : Option Nat} {root : Nat} : ¬ Nested who [.loop root] := by
  intro h
  cases h

theorem ne_nil {who : Option Nat} : ¬ Nested who [] := by
  intro h
  cases h

end Nested

end Rehearsal
