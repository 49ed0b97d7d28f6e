import Rehearsal.Proofs.Engine.Deadlock
import Rehearsal.Proofs.Engine.Lingering
import Rehearsal.Proofs.Engine.Origins

/-!
# What leaves a run

The scheduler looks tasks up, unpacks what they wait for, resumes their coroutines and compares
their ticks, and each of these can go wrong. In no run does any of it: how the tasks stand rules it
out. So a run that is given up is given up with a report of the bench, unless the report cannot be
written or the code around the scheduler raised an exception that is no ordinary one.
-/
namespace Rehearsal

variable {σ : Type} {begun : Nat → Prop}

namespace Config

/-- A round comes to a blocked task that is waiting for `i`, and has been told that the tasks `ids`
are over. -/
structure Visits (c : Config σ) (ids : List Nat) (t : Nat) (u : Task) (i : Interruption) :
    Prop where
  control : c.control = .done
  stack : ∃ rest below, c.stack = .round ids (t :: rest) :: below
  task : c.machine.get? t = some u
  undone : u.done = false
  interruption : u.interruption = some i
  unresolved : i.resolved = false

/-- The next step is an internal error: the scheduler is about to do something that makes no sense.
-/
inductive Fault (c : Config σ) : Prop
  /-- A task goes on with an interruption that has no answer. -/
  | unresolved {t : Nat} {u : Task} {i : Interruption} (control : c.control = .runTask t)
      (task : c.machine.get? t = some u) (interruption : u.interruption = some i)
      (unanswered : i.resolved = false)
  /-- What a task has held for its children is neither its value nor its failure. -/
  | unheld {t : Nat} {u : Task} {i : Interruption} {a : Pending} (control : c.control = .runTask t)
      (task : c.machine.get? t = some u) (interruption : u.interruption = some i)
      (kind : i.kind = .children)
      (answer : i.answer = some a) (value : ∀ v, a ≠ .returned v) (failure : ∀ e, a ≠ .failed e)
  /-- A task is resumed that has no coroutine. -/
  | undriven {t : Nat} {s : Signal} (resumed : c.resumption? t = some s)
      (nothing : (c.machine.get? t).bind (·.coroutine) = none)
  /-- A task that waits for a single other one waits for none, or for several. -/
  | unpacked {ids : List Nat} {t : Nat} {u : Task} {i : Interruption} (visits : c.Visits ids t u i)
      (kind : i.kind = .generator) (many : ∀ d, i.dependencies ≠ [d])
  /-- A task waits for one that is unknown. -/
  | adrift {ids : List Nat} {t d : Nat} {u : Task} {i : Interruption} (visits : c.Visits ids t u i)
      (kind : i.kind ≠ .children) (dependency : d ∈ i.dependencies)
      (unknown : c.machine.get? d = none)
  /-- What a task waits for is refused. -/
  | refused {ids : List Nat} {t : Nat} {u : Task} {i : Interruption} {refusal : Refusal}
      (visits : c.Visits ids t u i)
      (error : (c.machine.registry.modify t (·.removeChildren ids)).settle t i ids = .error refusal)
  /-- The parent of a task is unknown. -/
  | orphaned {t p : Nat} {u : Task} (task : c.machine.get? t = some u) (parent : u.parent = some p)
      (unknown : c.machine.get? p = none)
  /-- A task that something is to be done with is unknown. -/
  | unknown {t : Nat} (control : c.control = .runTask t ∨ c.control = .start t ∨
        (∃ v, c.control = .complete t v) ∨ (∃ e, c.control = .fail t e) ∨
        ∃ e, c.control = .propagate t e)
      (unknown : c.machine.get? t = none)
  /-- There is a tick among the tasks that can be selected, but none is the least. -/
  | uncut {u : Task} {n : Int}
      (eligible : u ∈ c.machine.registry.pendingTasks.filter (·.isSelectable))
      (wait : u.wait = .tick n)
      (cutoff : leastTick? (c.machine.registry.pendingTasks.filter (·.isSelectable)) = none)
  /-- Nobody is there to catch an exception. -/
  | uncaught {e : Exn} (control : c.control = .raised e)
      (nobody : c.stack.head?.bind Frame.runner? = none)

variable {c : Config σ}

/-- Whoever is about to be resumed has a coroutine. -/
theorem Sound.driven (hc : c.Sound begun) {t : Nat} {s : Signal} (h : c.resumption? t = some s) :
    ∃ u, c.machine.get? t = some u ∧ u.coroutine.isSome = true := by
  obtain ⟨below, resumes⟩ := resumption?_eq_some.mp h
  obtain ⟨m, stack, control⟩ := c
  cases resumes with
  | driven =>
    cases hc with
    | driving core nested task poised => exact ⟨_, task, poised.coroutine⟩
  | answered | entered =>
    cases hc with
    | answered core _ _ => exact core.frames _ (List.mem_cons_self ..)
  | thrown =>
    cases hc with
    | raised _ core _ => exact core.frames _ (List.mem_cons_self ..)

/-- A task that a round comes to waits, or holds what it has for its children. -/
theorem Visits.waits (hc : c.Sound begun) {ids : List Nat} {t : Nat} {u : Task} {i : Interruption}
    (h : c.Visits ids t u i) : ∃ rest root, c.stack = [.round ids (t :: rest), .loop root] ∧
      Core begun c.machine.registry [] c.stack none ∧
      (u.Waiting c.machine.registry (news c.machine.registry [] c.stack t) i ∨ u.Holding i) := by
  obtain ⟨m, stack, control⟩ := c
  obtain ⟨hcontrol, ⟨rest, below, hstack⟩, hu, hd, hi, hres⟩ := h
  obtain rfl : control = .done := hcontrol
  obtain rfl : stack = .round ids (t :: rest) :: below := hstack
  cases hc with
  | resting core nested =>
    cases nested with
    | round _ _ root =>
      refine ⟨rest, root, rfl, core, ?_⟩
      cases core.stands hu with
      | ended hd' _ => exact (Bool.false_ne_true (hd.symm.trans hd')).elim
      | fresh h => rw [h.interruption] at hi; cases hi
      | active free _ => rw [free.interruption] at hi; cases hi
      | waiting i' h =>
        rw [h.interruption, Option.some.injEq] at hi
        exact Or.inl (hi ▸ h)
      | holding i' h =>
        rw [h.interruption, Option.some.injEq] at hi
        exact Or.inr (hi ▸ h)

/-- What a round comes to is settled without fail. -/
theorem Visits.settled (hc : c.Sound begun) {ids : List Nat} {t : Nat} {u : Task} {i : Interruption}
    (h : c.Visits ids t u i) :
    ∃ outcome, (c.machine.registry.modify t (·.removeChildren ids)).settle t i ids =
      .ok outcome := by
  obtain ⟨rest, root, hstack, core, waiting | holding⟩ := h.waits hc
  · rw [hstack] at core waiting
    obtain ⟨ok, i', r', he, _⟩ := settle_visited core h.task waiting
    exact ⟨_, he⟩
  · exact ⟨_,
      Registry.settle_children (Registry.get?_modify_of_eq_some (·.removeChildren ids) h.task)
      holding.kind ids⟩

/-- A task that has been selected has not been started, or has an answer. -/
theorem Sound.ready (hc : c.Sound begun) {t : Nat} (h : c.control = .runTask t) :
    ∃ u, c.machine.get? t = some u ∧ (u.Fresh ∨ ∃ i a, u.Answered i a) := by
  obtain ⟨m, stack, control⟩ := c
  obtain rfl : control = .runTask t := h
  cases hc with
  | selected core nested task ready => exact ⟨_, task, ready.imp_left And.left⟩

/-- Whatever task something is to be done with is there. -/
theorem Sound.known (hc : c.Sound begun) {t : Nat}
    (h : c.control = .runTask t ∨ c.control = .start t ∨
    (∃ v, c.control = .complete t v) ∨ (∃ e, c.control = .fail t e) ∨
    ∃ e, c.control = .propagate t e) :
    ∃ u, c.machine.get? t = some u := by
  obtain ⟨m, stack, control⟩ := c
  dsimp only at h
  obtain rfl | rfl | ⟨v, rfl⟩ | ⟨e, rfl⟩ | ⟨e, rfl⟩ := h <;> cases hc <;> exact ⟨_, ‹_›⟩

/-- **Nothing goes wrong inside the scheduler.** -/
theorem Sound.not_fault (hc : c.Sound begun) : ¬ c.Fault := by
  intro fault
  cases fault with
  | unresolved control task interruption unanswered =>
    obtain ⟨v, hv, fresh | ⟨i', a, answered⟩⟩ := hc.ready control
    all_goals rw [task, Option.some.injEq] at hv; subst hv
    · rw [fresh.interruption] at interruption
      cases interruption
    · rw [answered.interruption, Option.some.injEq] at interruption
      subst interruption
      rw [Interruption.resolved, answered.answer] at unanswered
      cases unanswered
  | unheld control task interruption kind answer value failure =>
    obtain ⟨v, hv, fresh | ⟨i', a', answered⟩⟩ := hc.ready control
    all_goals rw [task, Option.some.injEq] at hv; subst hv
    · rw [fresh.interruption] at interruption
      cases interruption
    · rw [answered.interruption, Option.some.injEq] at interruption
      subst interruption
      rw [answered.answer, Option.some.injEq] at answer
      subst answer
      rcases answered.holds kind with ⟨v, hv, _⟩ | ⟨e, he, _⟩
      · exact value v hv
      · exact failure e he
  | undriven resumed nothing =>
    obtain ⟨u, hu, hco⟩ := hc.driven resumed
    rw [hu, Option.bind_some] at nothing
    rw [nothing] at hco
    cases hco
  | unpacked visits kind many =>
    obtain ⟨_, _, _, _, waiting | holding⟩ := visits.waits hc
    · have hshape := waiting.awaits.shape
      rw [kind] at hshape
      obtain ⟨d, _, hd⟩ := hshape
      exact many d hd
    · exact InterruptionKind.noConfusion (kind.symm.trans holding.kind)
  | adrift visits kind dependency unknown =>
    obtain ⟨_, _, _, _, waiting | holding⟩ := visits.waits hc
    · obtain ⟨td, htd, _⟩ := waiting.hears _ dependency
      exact Option.some_ne_none td (htd.symm.trans unknown)
    · exact kind holding.kind
  | refused visits error =>
    obtain ⟨outcome, hok⟩ := visits.settled hc
    rw [hok] at error
    cases error
  | orphaned task parent unknown =>
    obtain ⟨up, hup⟩ := (Rehearsal.Sound.forest hc).exists_parent task parent
    exact Option.some_ne_none up (hup.symm.trans unknown)
  | unknown control unknown =>
    obtain ⟨u, hu⟩ := hc.known control
    exact Option.some_ne_none u (hu.symm.trans unknown)
  | uncut eligible wait cutoff =>
    obtain ⟨_, _, least, _, hleast⟩ := exists_leastTick eligible wait
    rw [cutoff] at hleast
    cases hleast
  | uncaught control nobody =>
    obtain ⟨m, stack, control'⟩ := c
    obtain rfl : control' = .raised _ := control
    cases hc with
    | raised _ core nested =>
      obtain ⟨f, below, rfl, rfl | rfl, _⟩ := nested.inv_some <;> cases nobody

/-- A run ends by returning, with its root over, or it is given up. -/
theorem Sound.ends (hc : c.Sound begun) (h : c.isFinal = true) :
    (c.Returned ∧ c.machine.registry.isDone 0 = true) ∨ ∃ f, c.control = .abort f := by
  obtain ⟨m, stack, control⟩ := c
  rw [isFinal, Bool.and_eq_true, List.isEmpty_iff] at h
  obtain ⟨rfl, hcontrol⟩ : stack = [] ∧ _ := h
  cases hc with
  | settled forest root => exact Or.inl ⟨⟨rfl, rfl⟩, root⟩
  | aborted f _ => exact Or.inr ⟨f, rfl⟩
  | resting core nested => exact nested.ne_nil.elim
  | raised e core nested => exact nested.ne_nil.elim
  | _ => cases hcontrol

end Config

/-- What came out of the world is no exception but an `Exception`. -/
def Exchange.tame (x : Exchange) : Bool := x.raised?.all fun e => !e.kind.isFatal

/-- The root waits for a call that fails later, and fails of that itself. -/
def Playbook.failing : Playbook where
  responses
    | 0 => [.yielded (.effect (.call .null [] [])), .raised ⟨.value, [], .scheduler 0⟩]
    | _ => []
  plans := [{ CallPlan.real with error := some ⟨.value, [], .scheduler 0⟩, wait := .tick 1 }]

/-- A root that joins itself, under a number too long to be written. -/
def Playbook.joiningItself : Playbook where
  responses
    | 0 => [.yielded (.effect (.join (.keyed false [(.int (Nat.pow 10 4300), ⟨0, "root", true⟩)])))]
    | _ => []
  plans := []

end Rehearsal
