import Rehearsal.Proofs.Engine.Moves
import Rehearsal.Proofs.Engine.Reachable

/-!
# How a failure reaches the task that waits for it

A task that is blocked behind a call, a race or a gather, and is not let go of, is thrown into as
soon as what it waits for fails. A task that has been let go is not: it is resumed later, by a send,
and what failed counts as finished. So whether a failure is thrown turns on that one flag.
-/
namespace Rehearsal

variable {σ : Type} {begun : Nat → Prop} {t d : Nat} {u : Task} {i : Interruption}

/-- The signal with which the next step resumes the coroutine of `t`, if it does. A generator that
is entered on top of it is sent nothing. -/
def Config.resumption? (t : Nat) (c : Config σ) : Option Signal :=
  match c.control, c.stack with
  | .drive i s, _ => if i = t then some s else none
  | .answer (.advance v), .driving i :: _ => if i = t then some (.send v) else none
  | .answer (.enter _), .driving i :: _ => if i = t then some (.send .null) else none
  | .raised e, .driving i :: _ => if i = t then some (.throw e) else none
  | _, _ => none

/-- From `c` on, `t` is resumed after `n` steps with `s`, and not before. -/
structure Config.NextResumption (w : World σ) (o : RunOptions) (c : Config σ) (t n : Nat)
    (s : Signal) : Prop where
  resumed : (run w o n c).resumption? t = some s
  first : ∀ k < n, (run w o k c).resumption? t = none

/-- Blocked behind `d`: by a call, a deferral or a delay, or as the owner of a race or gather. -/
structure Task.BlockedBehind (t : Task) (i : Interruption) (d : Nat) : Prop where
  interruption : t.interruption = some i
  unanswered : i.answer = none
  kind : i.kind = .generator ∨ i.kind = .race ∨ i.kind = .all
  depends : d ∈ i.dependencies

namespace Task.BlockedBehind

theorem kind_ne_children (h : u.BlockedBehind i d) : i.kind ≠ .children := by
  rcases h.kind with hk | hk | hk <;> rw [hk] <;> decide

theorem kind_ne_join (h : u.BlockedBehind i d) : i.kind ≠ .join := by
  rcases h.kind with hk | hk | hk <;> rw [hk] <;> decide

end Task.BlockedBehind

namespace Core

variable {r : Registry} {reaped : List Nat} {stack : List Frame} {subject : Option Nat}

/-- What is blocked, and not behind its children, stands waiting. -/
theorem waiting (h : Core begun r reaped stack subject) (hs : subject ≠ some t)
    (hu : r.get? t = some u) (hi : u.interruption = some i) (hk : i.kind ≠ .children) :
    u.Waiting r (news r reaped stack t) i := by
  have hsome : u.interruption ≠ none := by
    rw [hi]
    exact Option.some_ne_none i
  cases h.standing hu hs with
  | ended hd _ => exact (hsome (h.forest.ended hu hd).2.1).elim
  | fresh h => exact (hsome h.interruption).elim
  | active h _ => exact (hsome h.interruption).elim
  | waiting j h =>
    rw [h.interruption, Option.some.injEq] at hi
    exact hi ▸ h
  | holding j h =>
    rw [h.interruption, Option.some.injEq] at hi
    exact (hk (hi ▸ h.kind)).elim

/-- What a task is blocked behind is its own. -/
theorem owned_of_blockedBehind (h : Core begun r reaped stack subject) (hs : subject ≠ some t)
    (hu : r.get? t = some u) (hb : u.BlockedBehind i d) : r.Owned t d := by
  have hw := h.waiting hs hu hb.interruption hb.kind_ne_children
  exact h.forest.id_eq hu ▸ hw.awaits.owned hb.kind_ne_join d hb.depends

end Core

namespace Config

theorem run_one (w : World σ) (o : RunOptions) {c : Config σ} (h : c.isFinal = false) (n : Nat) :
    run w o (n + 1) c = run w o n (c.step w o) := by
  rw [run, h]
  rfl

/-- A task keeps what is never taken back, and runs only if it was driven. -/
theorem onward_run (w : World σ) (o : RunOptions) {c : Config σ}
    (hu : c.machine.registry.get? t = some u) (n : Nat) :
    ∃ u', (run w o n c).machine.registry.get? t = some u' ∧
      u.Onward (∃ k < n, ∃ s, (run w o k c).control = .drive t s) u' := by
  induction n with
  | zero => exact ⟨u, hu, .refl u⟩
  | succ n ih =>
    obtain ⟨u', hu', ho⟩ := ih
    have hlift : u.Onward (∃ k < n + 1, ∃ s, (run w o k c).control = .drive t s) u' :=
      { ho with running := fun hr => (ho.running hr).imp_right fun ⟨k, hk, hs⟩ =>
          ⟨k, Nat.lt_succ_of_lt hk, hs⟩ }
    rw [run_succ]
    split
    · exact ⟨u', hu', hlift⟩
    · obtain ⟨u'', hu'', ho', _⟩ := (moves_step w o (run w o n c)).kept hu'
      refine ⟨u'', hu'',
        hlift.trans { ho' with running := fun hr => (ho'.running hr).imp_right ?_ }⟩
      exact fun hs => ⟨n, Nat.lt_succ_self n, hs⟩

/-- A task that does not run is resumed by being driven. -/
theorem NextResumption.drive {w : World σ} {o : RunOptions} {c : Config σ} {n : Nat} {s : Signal}
    (h : NextResumption w o c t n s) (hc : c.Sound begun) (hu : c.machine.registry.get? t = some u)
    (hr : u.running = false) : (run w o n c).control = .drive t s := by
  obtain ⟨begun', _, hs⟩ := sound_run w o hc n
  obtain ⟨u', hu', ho⟩ := onward_run w o hu n
  have hidle : u'.running = false := by
    cases hrun : u'.running with
    | false => rfl
    | true =>
      rcases ho.running hrun with hr' | ⟨k, hk, s', hdrive⟩
      · rw [hr] at hr'
        cases hr'
      · have hnone := h.first k hk
        rw [resumption?, hdrive] at hnone
        simp at hnone
  have hres := h.resumed
  generalize run w o n c = c' at hs hu' hres
  obtain ⟨m, stack, control⟩ := c'
  have hframe : ∀ below, stack = .driving t :: below →
      Core begun' m.registry [] stack none → False := by
    rintro below rfl core
    have hrun := (core.running_iff hu').mpr (List.mem_cons_self ..)
    rw [hidle] at hrun
    cases hrun
  cases hs with
  | driving core nested task poised =>
    simp only [resumption?] at hres
    split at hres
    · rename_i he
      rw [he, Option.some.inj hres]
    · cases hres
  | @answered _ _ a core nested stands =>
    cases nested with
    | driving i nested =>
      cases a with
      | block b => cases hres
      | advance v =>
        simp only [resumption?] at hres
        split at hres
        · rename_i he
          exact (hframe _ (by rw [he]) core).elim
        · cases hres
      | enter g =>
        simp only [resumption?] at hres
        split at hres
        · rename_i he
          exact (hframe _ (by rw [he]) core).elim
        · cases hres
    | member p hp nested => cases a <;> cases hres
  | raised e core nested =>
    cases nested with
    | driving i nested =>
      simp only [resumption?] at hres
      split at hres
      · rename_i he
        exact (hframe _ (by rw [he]) core).elim
      · cases hres
    | member p hp nested => cases hres
  | _ => cases hres

/-- A task that fails is another than the one that is blocked behind it. -/
theorem waiting_of_failing {m : Machine σ} {stack : List Frame} {e : Exn}
    (h : Rehearsal.Sound begun m.registry stack (.fail d e)) (hu : m.get? t = some u)
    (hb : u.BlockedBehind i d) : t ≠ d ∧ u.Waiting m.registry (news m.registry [] stack t) i := by
  cases h with
  | @failing _ ud _ _ core nested hd free hr =>
    have hne : t ≠ d := by
      rintro rfl
      rw [show m.get? t = some ud from hd, Option.some.injEq] at hu
      rw [← hu] at hb
      exact (Option.some_ne_none i (hb.interruption.symm.trans free.interruption)).elim
    refine ⟨hne, core.waiting ?_ hu hb.interruption hb.kind_ne_children⟩
    exact fun he => hne (Option.some.inj he).symm

/-- A failure is propagated in the next step; nothing but the failed task has been worked on. -/
theorem step_fail (w : World σ) (o : RunOptions) {m : Machine σ} {stack : List Frame} {e : Exn}
    (h : Rehearsal.Sound begun m.registry stack (.fail d e)) :
    ∃ m', step w o ⟨m, stack, .fail d e⟩ = ⟨m', stack, .propagate d e⟩ ∧
      m.registry.Evolves m'.registry (· = d) fun _ => False := by
  cases h with
  | failing _ core nested hd free hr =>
    obtain ⟨m', he, _, hev⟩ := m.core_fail o core nested hd free hr e
    exact ⟨m', by simp only [step, he], hev⟩

/-- A task fails while `t` is blocked behind it: the failure is about to be propagated, and nothing
has happened to `t`. -/
theorem fail_step (w : World σ) (o : RunOptions) {m : Machine σ} {stack : List Frame} {e : Exn}
    (h : Rehearsal.Sound begun m.registry stack (.fail d e)) (hu : m.get? t = some u)
    (hb : u.BlockedBehind i d) :
    ∃ m' u' v, step w o ⟨m, stack, .fail d e⟩ = ⟨m', stack, .propagate d e⟩ ∧
      m'.get? t = some u' ∧ u'.BlockedBehind i d ∧ u'.coroutine = u.coroutine ∧
      u'.abandoned = u.abandoned ∧ u'.running = false ∧ u'.error = none ∧
      m'.get? d = some v ∧ v.parent = some t ∧ v.abandoned = false := by
  obtain ⟨hne, hw⟩ := waiting_of_failing h hu hb
  obtain ⟨m', he, hev⟩ := step_fail w o h
  cases h with
  | failing _ core nested hd free hr =>
    have hsub : some d ≠ some t := fun he => hne (Option.some.inj he).symm
    obtain ⟨v, hv, hvp, hva⟩ := core.owned_of_blockedBehind hsub hu hb
    obtain ⟨u', hu', hk⟩ := hev.kept (show m.registry.get? t = some u from hu)
    obtain ⟨u₀, hu₀, hst⟩ := hev.steady hne hu'
    rw [show m.registry.get? t = some u from hu, Option.some.injEq] at hu₀
    subst hu₀
    obtain ⟨v', hv', hkv⟩ := hev.kept hv
    have hkept : ∀ {j : Nat} {x x' : Task},
        x.Kept m'.registry.finished (fun _ => False) j x' → x'.abandoned = x.abandoned := by
      intro j x x' hx
      cases hxa : x'.abandoned with
      | true => exact ((hx.leaves hxa).resolve_right fun ⟨_, _, hf⟩ => hf).symm
      | false =>
        cases hxa' : x.abandoned with
        | false => rfl
        | true => exact (Bool.false_ne_true (hxa.symm.trans (hx.abandoned hxa'))).elim
    exact ⟨m', u', v', he, hu', ⟨hst.interruption.trans hb.interruption, hb.unanswered, hb.kind,
      hb.depends⟩, hst.coroutine, hkept hk, hst.running.trans hw.running, hst.error.trans hw.error,
      hv', hkv.parent.trans hvp, (hkept hkv).trans hva⟩

/-- Two steps after the failure it is thrown into the task, unless that has been let go. -/
theorem failure_thrown (w : World σ) (o : RunOptions) {c : Config σ} {e : Exn} (hc : c.Sound begun)
    (hfail : c.control = .fail d e) (hu : c.machine.get? t = some u) (hb : u.BlockedBehind i d)
    (hco : u.coroutine.isSome = true) (hab : u.abandoned = false) :
    NextResumption w o c t 2 (.throw e) := by
  obtain ⟨m, stack, control⟩ := c
  obtain rfl : control = .fail d e := hfail
  obtain ⟨m', u', v, hstep, hu', hb', hco', hab', hr, herr, hv, hvp, hva⟩ := fail_step w o hc hu hb
  have hthrow : (step w o ⟨m', stack, .propagate d e⟩).control = .drive t (.throw e) := by
    show (propagate o m' stack d e).control = _
    rw [propagate_eq o e hv hvp hva hu' hr herr (hab'.trans hab), hco',
      if_neg (by simpa [Option.isSome_iff_ne_none] using hco)]
  have hone : run w o 1 ⟨m, stack, .fail d e⟩ = ⟨m', stack, .propagate d e⟩ := by
    rw [run_one w o (by simp [isFinal]), hstep]
    rfl
  have htwo : run w o 2 ⟨m, stack, .fail d e⟩ = step w o ⟨m', stack, .propagate d e⟩ := by
    rw [run_succ, hone]
    simp [isFinal]
  constructor
  · rw [htwo, resumption?, hthrow]
    exact if_pos rfl
  · intro k hk
    match k with
    | 0 => rfl
    | 1 => rw [hone]; rfl

end Config

/-- **A failure is thrown exactly into a task that has not been let go.** When something fails that
a task with a coroutine is blocked behind, the failure is thrown into the task two steps later, if
it has not been let go; and whenever the task is next resumed, an exception is thrown into it
exactly if it had not been let go. -/
theorem failure_thrown_iff (w : World σ) (o : RunOptions) (outer : σ) (name : String) (g n : Nat)
    {e : Exn} (hfail : (Config.run w o n (Config.launched outer name g)).control = .fail d e)
    (hu : (Config.run w o n (Config.launched outer name g)).machine.get? t = some u)
    (hco : u.coroutine.isSome = true) (hb : u.BlockedBehind i d) :
    (u.abandoned = false →
      Config.NextResumption w o (Config.run w o n (Config.launched outer name g)) t 2 (.throw e)) ∧
    ∀ k s, Config.NextResumption w o (Config.run w o n (Config.launched outer name g)) t k s →
      ((∃ e', s = .throw e') ↔ u.abandoned = false) := by
  obtain ⟨begun, hs⟩ := Config.sound_reached w o outer name g n
  generalize Config.run w o n (Config.launched outer name g) = c at hfail hu hs ⊢
  have hthrown := fun hab => Config.failure_thrown w o hs hfail hu hb hco hab
  refine ⟨hthrown, fun k s hk => ⟨?_, fun hab => ?_⟩⟩
  · rintro ⟨e', rfl⟩
    have hr : u.running = false := by
      obtain ⟨m, stack, control⟩ := c
      obtain rfl : control = .fail d e := hfail
      exact (Config.waiting_of_failing hs hu hb).2.running
    have hdrive := hk.drive hs hu hr
    obtain ⟨_, _, hs'⟩ := Config.sound_run w o hs k
    obtain ⟨u', hu', ho⟩ := Config.onward_run w o hu k
    generalize Config.run w o k c = c' at hdrive hs' hu'
    obtain ⟨m', stack', control'⟩ := c'
    obtain rfl : control' = .drive t (.throw e') := hdrive
    cases hs' with
    | @driving _ v _ _ core nested hv poised =>
      rw [show m'.registry.get? t = some v from hv, Option.some.injEq] at hu'
      cases hab : u.abandoned with
      | false => rfl
      | true =>
        have ha := poised.heeded e' rfl
        rw [hu', ho.abandoned hab] at ha
        cases ha
  · have hfirst := hthrown hab
    have hk2 : k = 2 := by
      rcases Nat.lt_trichotomy k 2 with hlt | rfl | hlt
      · have hnone := hfirst.first k hlt
        rw [hk.resumed] at hnone
        cases hnone
      · rfl
      · have hnone := hk.first 2 hlt
        rw [hfirst.resumed] at hnone
        cases hnone
    subst hk2
    have hres := hk.resumed
    rw [hfirst.resumed, Option.some.injEq] at hres
    exact ⟨e, hres.symm⟩

/-- The root waits for a call that fails later. -/
def Playbook.failingCall : Playbook where
  responses g := if g = 0 then [.yielded (.effect (.call .null [] []))] else []
  plans := [{ CallPlan.real with error := some ⟨.value, [], .scheduler 0⟩, wait := .tick 1 }]

theorem failure_thrown_into_root :
    ∃ e u i, (Playbook.failingCall.played 9).control = .fail 1 e ∧
      (Playbook.failingCall.played 9).machine.get? 0 = some u ∧ u.BlockedBehind i 1 ∧
      Config.NextResumption Playbook.world .default (Playbook.failingCall.played 9) 0 2 (.throw e) ∧
      u.abandoned = false := by
  have hb : ∃ u i, (Playbook.failingCall.played 9).machine.get? 0 = some u ∧
      u.coroutine.isSome = true ∧ u.abandoned = false ∧ u.BlockedBehind i 1 :=
    ⟨_, _, rfl, rfl, rfl, rfl, rfl, Or.inl rfl, List.mem_cons_self ..⟩
  obtain ⟨u, i, hu, hco, hab, hb⟩ := hb
  obtain ⟨hthrown, hiff⟩ :=
    failure_thrown_iff Playbook.world .default Playbook.failingCall "root" 0 9
    rfl hu hco hb
  exact ⟨_, u, i, rfl, hu, hb, hthrown hab, (hiff 2 _ (hthrown hab)).mp ⟨_, rfl⟩⟩

/-- The root races a delay against a generator that waits for a call that fails later. The delay
wins. -/
def Playbook.lateLoser : Playbook where
  responses
    | 0 => [.yielded (.effect (.race (.listed [.generator 1, .effect (.delay 1)])))]
    | 1 => [.yielded (.effect (.call .null [] []))]
    | _ => []
  plans := [{ CallPlan.real with error := some ⟨.value, [], .scheduler 0⟩, wait := .tick 2 }]

/-- The call of a member that has lost its race fails, and the member is sent the exception as the
value of the call. -/
theorem failure_sent_to_loser :
    ∃ e u i, (Playbook.lateLoser.played 40).control = .fail 2 e ∧
      (Playbook.lateLoser.played 40).machine.get? 1 = some u ∧ u.coroutine.isSome = true ∧
      u.BlockedBehind i 2 ∧ u.abandoned = true ∧
      Config.NextResumption Playbook.world .default (Playbook.lateLoser.played 40) 1 7
        (.send (.error e)) :=
  ⟨_, _, _, rfl, rfl, rfl, ⟨rfl, rfl, Or.inl rfl, List.mem_cons_self ..⟩, rfl, rfl, by decide⟩

end Rehearsal
