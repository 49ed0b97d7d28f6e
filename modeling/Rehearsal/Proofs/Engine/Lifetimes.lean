import Rehearsal.Proofs.Engine.Awaiting
import Rehearsal.Proofs.Engine.Coroutines
import Rehearsal.Proofs.Engine.Eagerness

/-!
# The life of a coroutine

A coroutine is resumed for the first time with nothing. Every resumption ends in an effect, in a
value, in a failure, or in the end of the run; and after a value or a failure the coroutine is
spent: its task is completed or has failed, waits for its children without a coroutine, or is over.
-/
namespace Rehearsal

variable {σ : Type} {begun : Nat → Prop} {t : Nat} {u : Task} {w : World σ} {o : RunOptions}

namespace Turn

variable {c c' : Config σ}

/-- What a resumption leads to. -/
theorem after_resumption {s : Signal} {below : List Frame} (turn : Turn o c c')
    (h : Resumes c.stack c.control t s below) :
    (∃ effect below, c'.stack = .driving t :: below ∧ c'.control = .interpret t effect false) ∨
      (∃ v, c'.control = .complete t v) ∨ (∃ e, c'.control = .fail t e) ∨
      ∃ f, c'.control = .abort f := by
  cases turn with
  | yields resumes effect =>
    obtain rfl := h.unique resumes
    exact Or.inl ⟨effect, _, rfl, rfl⟩
  | returns resumes v =>
    obtain rfl := h.unique resumes
    exact Or.inr (Or.inl ⟨v, rfl⟩)
  | escapes resumes _ =>
    obtain rfl := h.unique resumes
    exact Or.inr (Or.inr (Or.inl ⟨_, rfl⟩))
  | dies _ e => exact Or.inr (Or.inr (Or.inr ⟨_, rfl⟩))
  | _ => cases h

/-- An effect is yielded by a coroutine that has been resumed, or is the next member of a race or
gather, whose placeholder has just been made. -/
theorem interprets_inv {effect : Value} {b : Bool} (turn : Turn o c c')
    (h : c'.control = .interpret t effect b) :
    (b = false ∧ ∃ s below, Resumes c.stack c.control t s below ∧ c'.stack = .driving t :: below) ∨
      (b = true ∧ t = c.machine.registry.size ∧ (∃ u, c'.machine.registry.get? t = some u) ∧
        ∃ k below, c'.stack = .member t :: .composite k :: below ∧ t ∈ k.members) := by
  cases turn with
  | yields resumes _ =>
    cases h
    exact Or.inl ⟨rfl, _, _, resumes, rfl⟩
  | opens _ _ _ _ _ _ members made _ =>
    cases h
    exact Or.inr ⟨rfl, rfl, ⟨_, made⟩, _, _, rfl, members ▸ List.mem_singleton_self _⟩
  | continues _ _ _ _ members made _ =>
    cases h
    exact Or.inr ⟨rfl, rfl, ⟨_, made⟩, _, _, rfl,
      members ▸ List.mem_append_right _ (List.mem_singleton_self _)⟩
  | refuses _ _ _ _ f =>
    cases f with
    | exn e =>
      unfold Failure.control at h
      dsimp only at h
      split at h <;> cases h
    | harness _ => cases h
  | @condemns _ _ _ _ e _ =>
    unfold Failure.control at h
    dsimp only at h
    split at h <;> cases h
  | @rethrows _ _ _ _ e _ _ _ =>
    unfold Failure.control at h
    dsimp only at h
    split at h <;> cases h
  | runs _ _ leads =>
    obtain rfl := h
    rcases leads with h | ⟨_, h⟩ | ⟨_, h⟩ | h <;> cases h
  | starts _ _ leads =>
    obtain rfl := h
    rcases leads with h | h | ⟨_, _, h⟩ | ⟨_, h⟩ <;> cases h
  | climbs _ _ _ leads =>
    obtain rfl := h
    split at leads <;> cases leads
  | picks _ _ _ leads =>
    obtain rfl := h
    rcases leads with h | h <;> cases h
  | _ => cases h

/-- What is yielded is yielded by a coroutine that has been resumed. -/
theorem yields_inv {effect : Value} (turn : Turn o c c')
    (h : c'.control = .interpret t effect false) :
    ∃ s below, Resumes c.stack c.control t s below ∧ c'.stack = .driving t :: below :=
  ((turn.interprets_inv h).resolve_right fun hmember => nomatch hmember.1).2

end Turn

namespace Config

variable {c : Config σ}

/-! ### Before the first resumption -/

/-- Task `t` has no coroutine yet, or is about to be resumed for the first time. -/
structure Unopened (t : Nat) (c : Config σ) : Prop where
  undriven : .driving t ∉ c.stack
  first : ∀ {u}, c.machine.registry.get? t = some u → u.coroutine.isSome = true →
    c.control = .drive t (.send .null)

theorem Unopened.step (w : World σ) (o : RunOptions) (hc : c.Sound begun) (h : c.Unopened t)
    (hn : c.resumption? t = none) : (c.step w o).Unopened t where
  undriven := by
    intro hmem
    obtain ⟨below, htops⟩ := Tops.of_mem (P := (· = .driving t)) hmem rfl
    rcases (turn_step w o hc).tops_before htops with htops | ⟨_, rfl, hpush⟩
    · obtain ⟨_, hmem, rfl⟩ := htops.exists_mem
      exact h.undriven hmem
    · cases hpush with
      | resumed resumes =>
        rw [resumption?_eq_some.mpr ⟨_, resumes⟩] at hn
        cases hn
      | looped _ idle => cases idle
  first := by
    intro u' hu' hco
    refine (coroutine_step w o c hu' hco).resolve_left ?_
    rintro ⟨u, hu, hco⟩
    rw [resumption?, h.first hu hco] at hn
    simp at hn

/-- The first resumption sends nothing. -/
theorem Unopened.signal (hc : c.Sound begun) (h : c.Unopened t) {s : Signal}
    (hs : c.resumption? t = some s) :
    s = .send .null := by
  obtain ⟨below, resumes⟩ := resumption?_eq_some.mp hs
  have hfirst : ∀ {u}, c.machine.registry.get? t = some u → u.coroutine.isSome = true →
      c.control = .drive t (.send .null) := h.first
  have hundriven := h.undriven
  obtain ⟨m, stack, control⟩ := c
  cases resumes with
  | driven _ _ _ =>
    cases hc with
    | driving _ _ task poised =>
      cases hfirst task poised.coroutine
      rfl
  | _ => exact (hundriven (List.mem_cons_self ..)).elim

/-! ### After the last one -/

/-- Task `t` has returned or failed, or is over: its coroutine, if it still has one, is not resumed
again. -/
inductive Spent (t : Nat) (c : Config σ) : Prop
  | returned {v : Value} (control : c.control = .complete t v)
  | escaped {e : Exn} (control : c.control = .fail t e)
  | ended {u : Task} (task : c.machine.registry.get? t = some u) (done : u.done = true)
  | failed {u : Task} {e : Exn} (task : c.machine.registry.get? t = some u)
      (error : u.error = some e)
  | held {u : Task} {i : Interruption} (task : c.machine.registry.get? t = some u)
      (interruption : u.interruption = some i) (kind : i.kind = .children)
      (bare : u.coroutine = none)
      (due : i.answer = none ∨ c.control = .runTask t)

theorem Spent.unresumed (hc : c.Sound begun) (h : c.Spent t) : c.resumption? t = none := by
  by_contra hr
  obtain ⟨s, hs⟩ := Option.ne_none_iff_exists'.mp hr
  obtain ⟨v, hv, free⟩ := free_of_resumption hc hs
  cases h with
  | returned control =>
    rw [resumption?, control] at hs
    cases hs
  | escaped control =>
    rw [resumption?, control] at hs
    cases hs
  | ended task done =>
    rw [hv, Option.some.injEq] at task
    exact Bool.false_ne_true (free.done.symm.trans (task ▸ done))
  | failed task error =>
    rw [hv, Option.some.injEq] at task
    rw [← task, free.error] at error
    cases error
  | held task interruption _ _ _ =>
    rw [hv, Option.some.injEq] at task
    rw [← task, free.interruption] at interruption
    cases interruption

/-- A task that completes is over, or blocked behind its children without a coroutine. -/
theorem spent_of_complete (w : World σ) (o : RunOptions) (hc : c.Sound begun) {v : Value}
    (control : c.control = .complete t v) : (c.step w o).Spent t := by
  obtain ⟨m, stack, control'⟩ := c
  obtain rfl : control' = .complete t v := control
  cases hc with
  | @completing _ u _ _ _ _ task _ _ =>
    have hstep : step w o ⟨m, stack, .complete t v⟩ = halt (m.wrapUp o t (.returned v) v) stack :=
      rfl
    unfold Machine.wrapUp at hstep
    rcases m.holdForChildren_cases o task (.returned v) with ⟨m', he, _, hm⟩ | ⟨m', he, _, hm⟩
    · have hheld :=
        Registry.get?_modify_of_eq_some (Task.hold (m.registry.live u) (.returned v)) task
      rw [← hm] at hheld
      simp only [he] at hstep
      rw [hstep]
      exact .held hheld rfl rfl rfl (Or.inl rfl)
    · have hleft := Registry.get?_modify_of_eq_some (fun u => { u with children := [] }) task
      rw [← hm] at hleft
      simp only [he] at hstep
      rw [hstep]
      exact .ended (Machine.get?_finalize hleft v) rfl

/-- A task whose children are done is over once it is run. -/
theorem spent_of_release (w : World σ) (o : RunOptions) (hc : c.Sound begun)
    (control : c.control = .runTask t)
    {u : Task} {i : Interruption} (task : c.machine.registry.get? t = some u)
    (interruption : u.interruption = some i)
    (kind : i.kind = .children) : (c.step w o).Spent t := by
  have hends := isDone_step_iff w o hc task
  obtain ⟨m, stack, control'⟩ := c
  obtain rfl : control' = .runTask t := control
  cases hc with
  | @selected _ v _ _ _ task' ready =>
    rw [show m.registry.get? t = some u from task, Option.some.injEq] at task'
    subst task'
    rcases ready with ⟨fresh, _⟩ | ⟨j, a, ready⟩
    · rw [fresh.interruption] at interruption
      cases interruption
    · obtain rfl : j = i := Option.some.inj (ready.interruption.symm.trans interruption)
      have hans := ready.answer
      have hfinalizes : Finalizes w o ⟨m, stack, .runTask t⟩ t := by
        refine ⟨u, task, rfl, j, interruption, kind, ?_⟩
        rcases ready.holds kind with ⟨v, rfl, _⟩ | ⟨e, rfl, _⟩
        · exact Or.inl ⟨v, hans⟩
        · exact Or.inr ⟨e, hans⟩
      obtain ⟨u', hu', hd⟩ := Registry.isDone_iff.mp ((hends ready.done).mpr hfinalizes)
      exact .ended hu' hd

theorem Spent.step (w : World σ) (o : RunOptions) (hc : c.Sound begun)
    (live : ∀ f, c.control ≠ .abort f)
    (h : c.Spent t) : (c.step w o).Spent t := by
  cases h with
  | returned control => exact spent_of_complete w o hc control
  | escaped control =>
    obtain ⟨u, hu, he⟩ := failed_after w o hc control
    exact .failed hu he
  | ended task done =>
    obtain ⟨u', hu', ha⟩ := (amends_step w o c).kept task
    exact .ended hu' (ha.done done)
  | failed task error =>
    obtain ⟨u', hu', ha⟩ := (amends_step w o c).kept task
    exact .failed hu' (ha.failed _ error)
  | @held u i task interruption kind bare due =>
    rcases due with ha | control
    · cases fares_step w o hc live task interruption ha with
      | sleeps task' spared =>
        exact .held task' (spared.interruption.trans interruption) kind
          (spared.coroutine.trans bare)
          (Or.inl ha)
      | @turns ids rest root ok i' r' _ _ _ kind' answered flagged next =>
        obtain ⟨gone, hflag⟩ := flagged
        obtain ⟨a, b, hu', _⟩ := hflag.eq_some
          (Registry.get?_modify_of_eq_some (·.removeChildren ids) task)
        rw [next]
        refine .held (Registry.get?_modify_of_eq_some (·.awaiting i') hu') rfl
          (kind'.trans kind) bare ?_
        cases ok with
        | true => exact Or.inr rfl
        | false => exact Or.inl (by simpa using answered)
      | wakes _ _ _ next =>
        rw [bare] at next
        exact .escaped next
    · exact spent_of_release w o hc control task interruption kind

end Config

end Rehearsal
