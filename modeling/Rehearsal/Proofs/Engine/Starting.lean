import Rehearsal.Proofs.Engine.Resuming

/-!
# Selected tasks

A task is selected when it has not been started, or when what it waited for has been answered. Only
the former is started, and that makes it one of those that have begun.
-/
namespace Rehearsal

variable {σ : Type} {begun : Nat → Prop} {m : Machine σ} {stack : List Frame} {t : Nat} {u : Task}

def Control.begins (begun : Nat → Prop) (control : Control) (i : Nat) : Prop :=
  begun i ∨ match control with
    | .start t => i = t
    | _ => False

/-- Only a start begins a task. -/
theorem Control.begins_eq {control : Control} (h : ∀ t, control ≠ .start t) :
    control.begins begun = begun := by
  funext i
  unfold Control.begins
  split
  · exact (h _ rfl).elim
  · exact or_false _

/-- The subject begins. -/
theorem Core.start {r : Registry} {reaped : List Nat} (h : Core begun r reaped stack (some t))
    (hu : r.get? t = some u) : Core (Control.begins begun (.start t)) r reaped stack (some t) :=
  { h with
    once := by
      rintro i (hi | rfl)
      · exact h.once hi
      · exact ⟨u, hu, Or.inl rfl⟩ }

@[simp] theorem Machine.registry_produce (w : World σ) (m : Machine σ) (plan : CallPlan)
    (call : Call) : (m.produce w plan call).2.registry = m.registry := by
  unfold Machine.produce
  split
  · rfl
  · split <;> rfl

namespace Config

/-- What was produced for a task is entered, is its value, or is its failure. -/
def afterEntry (o : RunOptions) (m : Machine σ) (stack : List Frame) (t : Nat) :
    Except Exn Value → Config σ
  | .ok (.generator g) =>
    ⟨m.modify t fun task => { task with coroutine := some (.ofGenerator g) }, stack,
      .drive t (.send .null)⟩
  | .ok v => halt (m.complete o t v) stack
  | .error e =>
    if e.kind.isOrdinary then ⟨handling m e stack, stack, .fail t e⟩
    else ⟨m, stack, .abort (.exn e)⟩

theorem start_eq (w : World σ) (o : RunOptions) (hu : m.get? t = some u) {entry : Entry}
    (he : u.entry = some entry) :
    start w o m stack t =
      match entry with
      | .planned plan call =>
        afterEntry o
          ((m.modify t fun task => { task with entry := none }).produce w plan call).2 stack t
          ((m.modify t fun task => { task with entry := none }).produce w plan call).1
      | .constant v =>
        afterEntry o (m.modify t fun task => { task with entry := none }) stack t (.ok v) := by
  unfold start
  simp only [hu, he]
  cases entry <;> rfl

theorem sound_afterEntry (o : RunOptions) (core : Core begun m.registry [] stack (some t))
    (nested : Nested none stack) (hu : m.registry.get? t = some u) (free : u.Free)
    (hr : u.running = false) (produced : Except Exn Value) :
    (afterEntry o m stack t produced).Sound begun := by
  unfold afterEntry
  split
  · rename_i g
    refine .driving (core.modify hu _ ?_ rfl) nested (Registry.get?_modify_of_eq_some _ hu)
      ⟨⟨free.done, free.interruption, free.error⟩, rfl, fun _ => nofun⟩
    exact .of_unfinished rfl rfl rfl free.done free.done rfl
  · exact .resting (m.core_complete o core nested hu free hr _) nested
  · split
    · rw [← registry_handling] at core hu
      exact .failing _ core nested hu free hr
    · exact .aborted _ core.forest

theorem sound_start (w : World σ) (o : RunOptions)
    (h : Rehearsal.Sound begun m.registry stack (.start t)) :
    (start w o m stack t).Sound (Control.begins begun (.start t)) := by
  cases h with
  | @starting _ u _ core nested hu fresh _ =>
    have hget : m.get? t = some u := hu
    have hu' := Registry.get?_modify_of_eq_some (fun u => { u with entry := none }) hu
    have core' : Core (Control.begins begun (.start t))
        (m.registry.modify t fun u => { u with entry := none }) [] stack (some t) :=
      (core.start hu).modify hu _ (.of_unfinished rfl rfl rfl fresh.done fresh.done rfl) rfl
    have free : Task.Free { u with entry := none } := ⟨fresh.done, fresh.interruption, fresh.error⟩
    cases he : u.entry with
    | none =>
      unfold start
      simp only [hget, he]
      exact .resting (Machine.core_complete o core' nested hu' free fresh.running _) nested
    | some entry =>
      rw [start_eq w o hget he]
      cases entry with
      | constant v => exact sound_afterEntry o core' nested hu' free fresh.running (.ok v)
      | planned plan call =>
        have hreg :
            ((m.modify t fun u => { u with entry := none }).produce w plan call).2.registry =
            m.registry.modify t fun u => { u with entry := none } := Machine.registry_produce ..
        exact sound_afterEntry o (hreg ▸ core') nested (hreg ▸ hu') free fresh.running _

theorem sound_runTask (h : Rehearsal.Sound begun m.registry stack (.runTask t)) :
    (runTask m stack t).Sound begun := by
  cases h with
  | @selected _ u _ core nested hu ready =>
    have hget : m.get? t = some u := hu
    unfold runTask
    simp only [hget]
    rcases ready with ⟨fresh, first⟩ | ⟨i, a, h⟩
    · simp only [fresh.interruption]
      exact .starting core nested hu fresh first
    · obtain ⟨kind, pending, dependencies, answer⟩ := i
      obtain rfl : answer = some a := h.answer
      simp only [h.interruption]
      have hu' := Registry.get?_modify_of_eq_some (fun u => { u with interruption := none }) hu
      have core' :
          Core begun (m.registry.modify t fun u => { u with interruption := none }) [] stack
          (some t) := core.modify hu _ (.of_unfinished rfl rfl rfl h.done h.done rfl) rfl
      by_cases hk : kind = .children
      · have hend : ∀ v handled, (halt (({ m with handled }.modify t
            fun u => { u with interruption := none }).finalize t v) stack).Sound begun := by
          intro v handled
          exact .resting (core'.finish hu' h.done h.running (h.childless hk) nested v) nested
        rw [if_pos hk]
        rcases h.holds hk with ⟨v, rfl, _⟩ | ⟨e, rfl, _⟩
        · exact hend v none
        · exact hend (.error e) none
      · have free : Task.Free { u with interruption := none } := ⟨h.done, rfl, h.error hk⟩
        rw [if_neg hk]
        split
        · exact .completing _ core' nested hu' free h.running
        · rename_i hco
          rw [Option.isNone_iff_eq_none, ← ne_eq, ← Option.isSome_iff_ne_none] at hco
          exact .driving core' nested hu' ⟨free, hco, fun _ => nofun⟩

end Config

end Rehearsal
