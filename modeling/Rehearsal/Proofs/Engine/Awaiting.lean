import Rehearsal.Proofs.Engine.Finality
import Rehearsal.Proofs.Task.Results

/-!
# How a blocked task goes on

A blocked task is left alone until its turn in a round answers what it waits for, or a child of it
fails. In the first case it is selected and goes on with the answer two steps later; in the second
it goes on with the failure at once. `Sleeps` follows the interruption until then, with whatever is
known of it that rounds and the ends of tasks preserve.
-/
namespace Rehearsal

variable {σ : Type} {begun : Nat → Prop} {t : Nat} {u : Task} {w : World σ} {o : RunOptions}

namespace Registry

variable {r r' : Registry}

/-- A round answers an interruption or leaves it without answer, and raises flags at most. -/
theorem Settled.spec {i i' : Interruption} {ids : List Nat} {ok : Bool}
    (h : Settled r ids t i ok i' r') :
    i'.kind = i.kind ∧ i'.answer.isSome = ok ∧ ∃ gone, Flagged r r' gone := by
  cases h with
  | answered kind answer flagged => exact ⟨kind, by rw [answer]; rfl, _, flagged⟩
  | left kind awaits _ _ => exact ⟨kind, by rw [awaits.unanswered]; rfl, fun _ => False, .refl _ _⟩

end Registry

namespace Config

variable {c : Config σ}

/-- What is over after a step is over with the result it had. -/
theorem keeps_step (w : World σ) (o : RunOptions) (hc : c.Sound begun) (hopen : c.Open) :
    c.machine.registry.Keeps (c.step w o).machine.registry := by
  intro d u hu hd
  obtain ⟨a, b, hu'⟩ := final_step w o hc hopen hu hd
  exact ⟨_, hu', hd, rfl⟩

/-- What is over stays so for the rest of the run, with the result it has. -/
theorem keeps_run (w : World σ) (o : RunOptions) (hc : c.Sound begun) (hopen : c.Open) {j n : Nat}
    (hj : j ≤ n) : (run w o j c).machine.registry.Keeps (run w o n c).machine.registry := by
  intro d u hu hd
  obtain ⟨a, b, hu'⟩ := final_run w o hc hopen hj hu hd
  exact ⟨_, hu', hd, rfl⟩

/-- What task `t` goes on with in the next step, if it does: a task that runs tested code is
resumed, one that only stands for an effect has its value or fails. -/
def reply? (t : Nat) (c : Config σ) : Option Signal :=
  match c.control with
  | .complete i v => if i = t then some (.send v) else none
  | .fail i e => if i = t then some (.throw e) else none
  | _ => c.resumption? t

theorem reply?_of_resumption {s : Signal} (h : c.resumption? t = some s) : c.reply? t = some s := by
  obtain ⟨below, hr⟩ := resumption?_eq_some.mp h
  obtain ⟨m, stack, control⟩ := c
  cases hr <;> exact h

/-- Who goes on is free. -/
theorem free_of_reply (hc : c.Sound begun) {s : Signal} (h : c.reply? t = some s) :
    ∃ v, c.machine.registry.get? t = some v ∧ v.Free := by
  obtain ⟨m, stack, control⟩ := c
  dsimp only [reply?] at h
  split at h
  · obtain ⟨rfl, _⟩ := Option.ite_none_right_eq_some.mp h
    cases hc with
    | completing _ _ _ task free _ => exact ⟨_, task, free⟩
  · obtain ⟨rfl, _⟩ := Option.ite_none_right_eq_some.mp h
    cases hc with
    | failing _ _ _ task free _ => exact ⟨_, task, free⟩
  · exact free_of_resumption hc h

theorem reply?_drive {s : Signal} (h : c.control = .drive t s) : c.reply? t = some s := by
  simp [reply?, resumption?, h]

theorem reply?_complete {v : Value} (h : c.control = .complete t v) :
    c.reply? t = some (.send v) := by
  simp [reply?, h]

theorem reply?_fail {e : Exn} (h : c.control = .fail t e) : c.reply? t = some (.throw e) := by
  simp [reply?, h]

/-- Nobody goes on in a run that is given up. -/
theorem reply?_of_abort {f : Failure} (h : c.control = .abort f) : c.reply? t = none := by
  simp [reply?, resumption?, h]

/-- From `c` on, task `t` goes on for the first time after `n` steps, and with `s`. -/
structure GoesOn (w : World σ) (o : RunOptions) (t : Nat) (s : Signal) (n : Nat) (c : Config σ) :
    Prop where
  reply : (run w o n c).reply? t = some s
  first : ∀ j < n, (run w o j c).reply? t = none

namespace GoesOn

variable {s : Signal} {n : Nat}

/-- Whoever goes on at once does not do so later. -/
theorem now (h : GoesOn w o t s n c) {s' : Signal} (hs : c.reply? t = some s') :
    n = 0 ∧ s = s' := by
  cases n with
  | zero => exact ⟨rfl, Option.some.inj (h.reply.symm.trans hs)⟩
  | succ n =>
    have hnone : c.reply? t = none := h.first 0 (Nat.succ_pos n)
    rw [hs] at hnone
    cases hnone

theorem later (h : GoesOn w o t s n c) {j : Nat} (hj : j ≤ n) :
    GoesOn w o t s (n - j) (run w o j c) where
  reply := by
    rw [← run_add, Nat.add_sub_cancel' hj]
    exact h.reply
  first := by
    intro i hi
    rw [← run_add]
    exact h.first (j + i) (by omega)

/-- Whoever does not go on at once does so after the next step. -/
theorem step (h : GoesOn w o t s n c) (hs : c.reply? t = none) :
    c.isFinal = false ∧ ∃ n', n = n' + 1 ∧ GoesOn w o t s n' (c.step w o) := by
  cases n with
  | zero =>
    have hsome : c.reply? t = some s := h.reply
    rw [hs] at hsome
    cases hsome
  | succ n =>
    have hf : c.isFinal = false := by
      rw [Bool.eq_false_iff]
      intro hf
      have hsome := h.reply
      rw [run_of_isFinal w o _ hf, hs] at hsome
      cases hsome
    have hone : run w o 1 c = c.step w o := run_one w o hf 0
    have hnext : GoesOn w o t s n (run w o 1 c) := h.later (Nat.le_add_left 1 n)
    exact ⟨hf, n, rfl, hone ▸ hnext⟩

/-- The run is not given up before. -/
theorem live (h : GoesOn w o t s n c) {j : Nat} (hj : j ≤ n) (f : Failure) :
    (run w o j c).control ≠ .abort f := by
  intro hf
  have hsome := (h.later hj).reply
  rw [reply?_of_abort (run_abort w o hf _)] at hsome
  cases hsome

end GoesOn

/-! ### One step of a blocked task -/

/-- How a blocked task fares in a step: it is left alone, has its turn in a round, or a child that
has failed takes it out of its sleep. -/
inductive Fares (w : World σ) (o : RunOptions) (c : Config σ) (t : Nat)
    (u : Task) (i : Interruption) :
    Prop
  | sleeps {u' : Task} (task : (c.step w o).machine.registry.get? t = some u')
      (spared : u.Spared u')
  | turns {ids rest : List Nat} {root : Nat} {ok : Bool} {i' : Interruption} {r' : Registry}
      (control : c.control = .done) (stack : c.stack = [.round ids (t :: rest), .loop root])
      (settles :
        (c.machine.registry.modify t (·.removeChildren ids)).settle t i ids = .ok (ok, i', r'))
      (kind : i'.kind = i.kind) (answered : i'.answer.isSome = ok)
      (flagged :
        ∃ gone, Registry.Flagged (c.machine.registry.modify t (·.removeChildren ids)) r' gone)
      (next : c.step w o = ⟨{ c.machine with registry := r'.modify t (·.awaiting i') },
        [.round ids rest, .loop root], if ok then .runTask t else .done⟩)
  | wakes {d : Nat} {e : Exn} {v : Task} (control : c.control = .propagate d e)
      (child : c.machine.registry.get? d = some v) (parent : v.parent = some t)
      (next : (c.step w o).control = if u.coroutine.isSome then .drive t (.throw e) else .fail t e)

theorem fares_step (w : World σ) (o : RunOptions) (hc : c.Sound begun)
    (live : ∀ f, c.control ≠ .abort f)
    (hu : c.machine.registry.get? t = some u) {i : Interruption} (hi : u.interruption = some i)
    (hn : i.answer = none) : c.Fares w o t u i := by
  by_cases hw : c.footprint.works t
  case neg =>
    obtain ⟨u', hu', _, hs⟩ := (moves_step w o c).kept hu
    exact .sleeps hu' (hs hw)
  obtain ⟨m, stack, control⟩ := c
  rcases works_blocked hc live hu hi hn hw with
    ⟨ids, rest, root, hcontrol, hstack⟩ | ⟨d, e, v, hcontrol, hv, hp⟩
  · obtain rfl : control = .done := hcontrol
    obtain rfl : stack = [.round ids (t :: rest), .loop root] := hstack
    cases hc with
    | resting core nested =>
      have hturn := Registry.get?_modify_of_eq_some (·.removeChildren ids) hu
      have hsome : u.interruption ≠ none := by
        rw [hi]
        exact Option.some_ne_none i
      cases core.stands hu with
      | ended hd _ => exact (hsome (core.forest.ended hu hd).2.1).elim
      | fresh h => exact (hsome h.interruption).elim
      | active h _ => exact (hsome h.interruption).elim
      | waiting j h =>
        obtain rfl : j = i := Option.some.inj (h.interruption.symm.trans hi)
        obtain ⟨ok, i', r', he, _, hs⟩ := settle_visited core hu h
        obtain ⟨hkind, hans, hflag⟩ := hs.spec
        exact .turns rfl rfl he hkind hans hflag (continueRound_blocked hu h.toBlocked he)
      | holding j h =>
        obtain rfl : j = i := Option.some.inj (h.interruption.symm.trans hi)
        have he := Registry.settle_children hturn h.kind ids
        by_cases hc : (u.removeChildren ids).children = []
        · rw [if_pos hc] at he
          exact .turns rfl rfl he rfl rfl ⟨fun _ => False, .refl _ _⟩
            (continueRound_blocked hu h.toBlocked he)
        · rw [if_neg hc] at he
          exact .turns rfl rfl he rfl (by rw [hn]; rfl) ⟨fun _ => False, .refl _ _⟩
            (continueRound_blocked hu h.toBlocked he)
  · obtain rfl : control = .propagate d e := hcontrol
    by_cases hdeaf : v.abandoned = true ∨ u.running = true ∨
      u.error.isSome = true ∨ u.abandoned = true
    · have hhalt : step w o ⟨m, stack, .propagate d e⟩ = halt m stack :=
        propagate_deaf o e hv hp hu hdeaf
      exact .sleeps (by rw [hhalt]; exact hu) (.refl u)
    · simp only [not_or, Bool.not_eq_true, Option.isSome_eq_false_iff,
        Option.isNone_iff_eq_none] at hdeaf
      obtain ⟨ha, hr, herr, hab⟩ := hdeaf
      refine .wakes rfl hv hp ?_
      show (propagate o m stack d e).control = _
      rw [propagate_eq o e hv hp ha hu hr herr hab]
      cases u.coroutine <;> rfl

/-- A task that is selected with an answer goes on with it. -/
theorem step_answered (w : World σ) (o : RunOptions) (hcontrol : c.control = .runTask t)
    (hu : c.machine.registry.get? t = some u) {i : Interruption} (hi : u.interruption = some i)
    (hk : i.kind ≠ .children) {a : Pending} (ha : i.answer = some a) :
    c.step w o = ⟨({ c.machine with handled := none } : Machine σ).modify t
        fun u => { u with interruption := none }, c.stack,
      if u.coroutine.isSome then .drive t (.send (answerValue a)) else .complete t
          (answerValue a)⟩ := by
  obtain ⟨m, stack, control⟩ := c
  obtain rfl : control = .runTask t := hcontrol
  have hget : m.get? t = some u := hu
  obtain ⟨kind, pending, dependencies, answer⟩ := i
  obtain rfl : answer = some a := ha
  show runTask m stack t = _
  unfold runTask
  simp only [hget, hi, if_neg hk]
  cases u.coroutine <;> rfl

/-! ### Until it goes on -/

/-- What is known of an interruption for good: it does not depend on what has not ended yet, and a
round keeps it. -/
structure Lasting (P : Registry → Interruption → Prop) : Prop where
  keeps : ∀ {r r' i}, r.Keeps r' → P r i → P r' i
  settles : ∀ {r r' : Registry} {t i i' ids ok}, i.answer = none →
    r.settle t i ids = .ok (ok, i', r') →
    P r i → P r i'

/-- Task `t` is behind an interruption that `P` holds for, with its coroutine as it was; once the
interruption has an answer the task is selected. -/
structure Sleeps (P : Registry → Interruption → Prop) (t : Nat)
    (co : Option Coroutine) (i : Interruption)
    (c : Config σ) : Prop where
  task : ∃ u, c.machine.registry.get? t = some u ∧ u.interruption = some i ∧ u.coroutine = co
  kind : i.kind ≠ .children
  holds : P c.machine.registry i
  due : i.answer = none ∨ c.control = .runTask t

variable {P : Registry → Interruption → Prop} {co : Option Coroutine} {i : Interruption}

theorem Sleeps.reply? (hc : c.Sound begun) (h : c.Sleeps P t co i) : c.reply? t = none := by
  by_contra hr
  obtain ⟨s, hs⟩ := Option.ne_none_iff_exists'.mp hr
  obtain ⟨u, hu, hi, _⟩ := h.task
  obtain ⟨v, hv, free⟩ := free_of_reply hc hs
  rw [hu, Option.some.injEq] at hv
  subst hv
  rw [free.interruption] at hi
  cases hi

def Wakes (t : Nat) (i : Interruption) (s : Signal) (c : Config σ) : Prop :=
  (c.control = .runTask t ∧ ∃ a, i.answer = some a ∧ s = .send (answerValue a)) ∨
    ∃ d e v, c.control = .propagate d e ∧ c.machine.registry.get? d = some v ∧ v.parent = some t ∧
      s = .throw e

theorem Sleeps.step (w : World σ) (o : RunOptions) (hP : Lasting P)
    (hc : c.Sound begun) (hopen : c.Open)
    (live : ∀ f, c.control ≠ .abort f) (h : c.Sleeps P t co i) :
    (∃ i', i'.kind = i.kind ∧ (c.step w o).Sleeps P t co i') ∨
      ∃ s, (c.step w o).reply? t = some s ∧ (co.isSome = true → (c.step w o).control = .drive t s) ∧
        c.Wakes t i s := by
  obtain ⟨u, hu, hi, rfl⟩ := h.task
  have hkeeps := keeps_step w o hc hopen
  cases ha : i.answer with
  | some a =>
    have hcontrol := h.due.resolve_left (by rw [ha]; exact nofun)
    refine Or.inr ⟨.send (answerValue a), ?_, ?_, Or.inl ⟨hcontrol, a, ha, rfl⟩⟩
    all_goals rw [step_answered w o hcontrol hu hi h.kind ha]
    · cases u.coroutine with
      | none => exact reply?_complete rfl
      | some co => exact reply?_drive rfl
    · exact fun hco => if_pos hco
  | none =>
    cases fares_step w o hc live hu hi ha with
    | @sleeps u' task spared =>
      exact Or.inl ⟨i, rfl, ⟨u', task, spared.interruption.trans hi, spared.coroutine⟩, h.kind,
        hP.keeps hkeeps h.holds, Or.inl ha⟩
    | @turns ids rest root ok i' r' control stack settles kind answered flagged next =>
      left
      obtain ⟨gone, hflag⟩ := flagged
      obtain ⟨a, b, hu', _⟩ := hflag.eq_some
        (Registry.get?_modify_of_eq_some (·.removeChildren ids) hu)
      have hholds : P (c.machine.registry.modify t (·.removeChildren ids)) i' :=
        hP.settles ha settles (hP.keeps (.modify _ _ _ (fun _ => rfl) fun _ => rfl) h.holds)
      have hlast : P (r'.modify t (·.awaiting i')) i' :=
        hP.keeps (.modify _ _ _ (fun _ => rfl) fun _ => rfl) (hP.keeps hflag.keeps hholds)
      rw [next]
      refine ⟨i', kind, ⟨_, Registry.get?_modify_of_eq_some (·.awaiting i') hu', rfl, rfl⟩,
        kind ▸ h.kind, hlast, ?_⟩
      cases ok with
      | true => exact Or.inr rfl
      | false => exact Or.inl (by simpa using answered)
    | @wakes d e v control child parent next =>
      refine Or.inr ⟨.throw e, ?_, fun hco => next.trans (if_pos hco),
        Or.inr ⟨d, e, v, control, child, parent, rfl⟩⟩
      cases hco : u.coroutine with
      | none =>
        rw [hco] at next
        exact reply?_fail next
      | some co =>
        rw [hco] at next
        exact reply?_drive next

/-- **A sleeping task sleeps on until it goes on**, with the answer to what it sleeps behind or with
the failure of a child. -/
theorem Sleeps.until_reply {w : World σ} {o : RunOptions} (hP : Lasting P) (hc : c.Sound begun)
    (hopen : c.Open) (h : c.Sleeps P t co i) {n : Nat} {s : Signal} (hr : GoesOn w o t s n c) :
    ∃ k i', n = k + 1 ∧ (∀ j ≤ k, ∃ i'', i''.kind = i.kind ∧ (run w o j c).Sleeps P t co i'') ∧
      i'.kind = i.kind ∧ (run w o k c).Sleeps P t co i' ∧ (run w o k c).Wakes t i' s := by
  -- by induction on the steps made, the task sleeps or has just woken
  have hsleeps : ∀ j < n, ∃ i', i'.kind = i.kind ∧ (run w o j c).Sleeps P t co i' := by
    intro j
    induction j with
    | zero => exact fun _ => ⟨i, rfl, h⟩
    | succ j ih =>
      intro hj
      obtain ⟨i', hk, hi'⟩ := ih (Nat.lt_of_succ_lt hj)
      obtain ⟨_, _, hs⟩ := sound_run w o hc j
      rw [run_succ]
      split
      · exact ⟨i', hk, hi'⟩
      · rename_i hf
        rcases hi'.step w o hP hs (open_run w o hc hopen j) (hr.live (by omega)) with
          ⟨i'', hk', hi''⟩ | ⟨s', hs', _, _⟩
        · exact ⟨i'', hk'.trans hk, hi''⟩
        · have hnone := hr.first (j + 1) hj
          rw [run_succ, if_neg hf, hs'] at hnone
          cases hnone
  cases n with
  | zero =>
    obtain ⟨_, n', hn, _⟩ := hr.step (h.reply? hc)
    cases hn
  | succ k =>
    obtain ⟨i', hk, hi'⟩ := hsleeps k (Nat.lt_succ_self k)
    obtain ⟨_, _, hs⟩ := sound_run w o hc k
    refine ⟨k, i', rfl, fun j hj => hsleeps j (Nat.lt_succ_of_le hj), hk, hi', ?_⟩
    have hreply := hr.reply
    rw [run_succ] at hreply
    split at hreply
    · rw [hi'.reply? hs] at hreply
      cases hreply
    · rcases hi'.step w o hP hs (open_run w o hc hopen k) (hr.live (Nat.le_succ k)) with
        ⟨i'', _, hi''⟩ | ⟨s', hs', _, hwakes⟩
      · rw [hi''.reply? (sound_step w o hs)] at hreply
        cases hreply
      · rw [hs', Option.some.injEq] at hreply
        exact hreply ▸ hwakes

end Config

end Rehearsal
