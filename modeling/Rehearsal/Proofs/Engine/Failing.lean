import Rehearsal.Proofs.Engine.Tending

/-!
# Tasks that have failed

A task fails once, of an exception that a task may catch. Only a parent that has not failed lets go
of its children, and while it runs it lets go only of those that have not failed themselves; so
whatever stands between a failure and the task that will hear of it stays where it is.
-/
namespace Rehearsal

variable {σ : Type} {begun : Nat → Prop}

/-- The exception that is on its way: a task fails of it, its parent is told, or it is about to be
thrown. -/
def Control.exn? : Control → Option Exn
  | .raised e | .fail _ e | .propagate _ e | .drive _ (.throw e) => some e
  | _ => none

structure Config.Ordinary (c : Config σ) : Prop where
  control : ∀ e, c.control.exn? = some e → e.kind.isOrdinary = true
  errors : ∀ i u e, c.machine.registry.get? i = some u → u.error = some e → e.kind.isOrdinary = true

theorem Failure.ordinary_of_control {f : Failure} {e : Exn} (h : f.control.exn? = some e) :
    e.kind.isOrdinary = true := by
  cases f with
  | harness _ => cases h
  | exn e' =>
    unfold control at h
    dsimp only at h
    split at h
    · rename_i hk
      cases h
      exact hk
    · cases h

/-- Where the exception may be caught, it is raised. -/
theorem Failure.control_of_ordinary {e : Exn} (h : e.kind.isOrdinary = true) :
    (Failure.exn e).control = .raised e := if_pos h

theorem Resumes.throws {stack below : List Frame} {control : Control} {t : Nat} {e : Exn}
    (h : Resumes stack control t (.throw e) below) : control.exn? = some e := by
  cases h <;> rfl

/-- A composite that changes the registry when all its members have been looked at is concluded,
with no error among them. -/
theorem Turn.concludes_inv {o : RunOptions} {m : Machine σ} {k : Composite} {below : List Frame}
    {c' : Config σ} (turn : Turn o ⟨m, .composite k :: below, .done⟩ c') (rest : k.rest = [])
    (changed : c'.machine.registry ≠ m.registry) :
    m.firstError? k.members = none ∧ c'.stack = below := by
  cases turn with
  | continues _ _ more _ _ _ _ => exact (more rest).elim
  | condemns _ _ _ => exact (changed rfl).elim
  | concludes _ _ hale _ => exact ⟨hale, rfl⟩
  | yields resumes _ | returns resumes _ | escapes resumes _ | dies resumes _ => cases resumes
  | picks _ _ frames _ => rcases frames with ⟨_, hf, _⟩ | ⟨_, _, hf, _⟩ <;> cases hf
  | bubbles _ frame _ => rcases frame with hf | ⟨_, hf⟩ <;> cases hf

namespace Config

theorem ordinary_step (w : World σ) (o : RunOptions) {c : Config σ} (hc : c.Sound begun)
    (h : c.Ordinary) : (c.step w o).Ordinary := by
  have hturn := turn_step w o hc
  constructor
  case errors =>
    intro i u' e hu' he
    rcases (amends_step w o c).errors hu' he with ⟨u, hu, he⟩ | hf
    · exact h.errors i u e hu he
    · refine h.control e ?_
      rw [show c.control = .fail i e from hf]
      rfl
  case control =>
    intro e he
    generalize c.step w o = c' at hturn he
    cases hturn with
    | escapes _ ordinary => cases he; exact ordinary
    | sinks _ _ _ => cases he; exact h.control _ rfl
    | refuses _ _ _ _ _ => exact Failure.ordinary_of_control he
    | condemns _ _ _ => exact Failure.ordinary_of_control (f := .exn _) he
    | rethrows _ _ _ _ => exact Failure.ordinary_of_control (f := .exn _) he
    | runs _ _ leads => rcases leads with rfl | ⟨v, rfl⟩ | ⟨v, rfl⟩ | rfl <;> cases he
    | starts _ _ leads =>
      rcases leads with rfl | rfl | ⟨_, hk, rfl⟩ | ⟨_, rfl⟩
      · cases he
      · cases he
      · cases he
        exact hk
      · cases he
    | fails _ _ _ => cases he; exact h.control _ rfl
    | climbs _ e' _ leads =>
      refine h.control e ?_
      rw [leads] at he
      split at he <;> exact he
    | picks _ _ _ leads => rcases leads with rfl | rfl <;> cases he
    | _ => cases he

theorem hale_launched (outer : σ) (name : String) (g : Nat) {i : Nat} {u : Task}
    (hu : (launched outer name g).machine.registry.get? i = some u) : u.error = none := by
  rcases Registry.get?_create_cases
      (fun _ hp => by cases hp) (show (Registry.empty.create name .now none
      false (some (.ofGenerator g)) none).1.get? i = some u from hu) with ⟨_, rfl⟩ | ⟨hlt, _⟩
  · rfl
  · exact absurd hlt (Nat.not_lt_zero i)

theorem ordinary_launched (outer : σ) (name : String) (g : Nat) :
    (launched outer name g).Ordinary where
  control := nofun
  errors := by
    intro i u e hu he
    rw [hale_launched outer name g hu] at he
    cases he

theorem ordinary_run (w : World σ) (o : RunOptions) {c : Config σ} (hc : c.Sound begun)
    (h : c.Ordinary) (n : Nat) : (run w o n c).Ordinary := by
  induction n with
  | zero => exact h
  | succ n ih =>
    obtain ⟨begun', _, hs⟩ := sound_run w o hc n
    rw [run_succ]
    split
    · exact ih
    · exact ordinary_step w o hs ih

/-- A task is let go of by a parent that has not failed. One that runs does so when it concludes a
composite of which the task is a member, and only if the task has not failed; one that is told of a
failure does not let go of the task that failed. -/
structure LetGoBy (c c' : Config σ) (d : Nat) (u : Task) (p : Nat) (up : Task) : Prop where
  task : c.machine.registry.get? d = some u
  parent : u.parent = some p
  owner : c.machine.registry.get? p = some up
  hale : up.error = none
  concluded : up.running = true → u.error = none ∧ ∃ f, d ∈ f.wards ∧ c.stack = f :: c'.stack
  told : ∀ t e, c.control = .propagate t e → d ≠ t
  control : c.control.exn? = none ∨ ∃ t e, c.control = .propagate t e

theorem letGoBy_of_step (w : World σ) (o : RunOptions) {c : Config σ} {d : Nat} {u' : Task}
    (hc : c.Sound begun) (hu' : (c.step w o).machine.registry.get? d = some u')
    (hgone : u'.abandoned = true)
    (hkept : ∀ u, c.machine.registry.get? d = some u → u.abandoned = false) :
    ∃ u p up, c.LetGoBy (c.step w o) d u p up := by
  have hfree : c.licence.frees d := by
    refine ((amends_step w o c).gone hu' hgone).resolve_left ?_
    rintro ⟨u, hu, ha⟩
    exact Bool.false_ne_true ((hkept u hu).symm.trans ha)
  have hturn := turn_step w o hc
  have hchanged : (c.step w o).machine.registry ≠ c.machine.registry := by
    intro he
    rw [he] at hu'
    exact Bool.false_ne_true ((hkept u' hu').symm.trans hgone)
  generalize c.step w o = c' at hturn hchanged
  obtain ⟨m, stack, control⟩ := c
  cases hc with
  | resting core nested =>
    cases nested with
    | batch _ _ => exact hfree.elim
    | forked _ _ => exact hfree.elim
    | composite k nested =>
      obtain ⟨hrest, entry, hentry, rfl⟩ := hfree
      obtain ⟨u, hu, hp, _⟩ := core.frames (.composite k) (List.mem_cons_self ..) entry hentry
      have hmem : entry.2 ∈ k.members := List.mem_map.mpr ⟨entry, hentry, rfl⟩
      obtain ⟨up, hup⟩ := core.exists_of_mem_runners (t := k.task) nested.runner_mem
      have hrun := (core.running_iff hup).mpr nested.runner_mem
      refine ⟨u, k.task, up, hu, hp, hup, ((core.stands hup).free hrun).error, fun _ => ?_, nofun,
        Or.inl rfl⟩
      obtain ⟨hale, hstack⟩ := hturn.concludes_inv hrest hchanged
      exact ⟨Machine.firstError?_eq_none hale hmem hu, .composite k, hmem, hstack ▸ rfl⟩
    | round ids rest root =>
      cases rest with
      | nil => exact hfree.elim
      | cons t rest =>
        obtain ⟨ut, i, hut, hi, _, hk, hd⟩ := hfree
        have hget : m.registry.get? t = some ut := hut
        have hne : i.kind ≠ .children := by
          rw [hk]
          decide
        have hw := core.waiting (Option.some_ne_none t).symm hget hi hne
        rw [hw.awaits.waitingOn (Or.inl hk)] at hd
        obtain ⟨u, hu, hp, _⟩ := hw.awaits.owned (by rw [hk]; decide) d hd
        rw [core.forest.id_eq hget] at hp
        refine ⟨u, t, ut, hu, hp, hget, hw.error, fun hrun => ?_, nofun, Or.inl rfl⟩
        rw [hw.running] at hrun
        cases hrun
  | looking _ _ => exact hfree.elim
  | settled _ _ => exact hfree.elim
  | @propagating t' _ _ e core nested task parent =>
    obtain ⟨hne, ut, p, u, hut, hp, hu, hup⟩ := hfree
    have htold : ∀ i e', Control.propagate t' e = .propagate i e' → d ≠ i := by
      rintro i e' ⟨⟩
      exact hne
    cases hturn with
    | subsides _ _ _ same _ _ => exact (hchanged same).elim
    | surfaces _ _ _ _ _ => exact (hchanged rfl).elim
    | climbs _ _ heeds _ =>
      have hparent := heeds.parent
      have htask := heeds.task
      rw [show m.registry.get? t' = some ut from hut, Option.some.injEq] at htask
      rw [← htask, hp, Option.some.injEq] at hparent
      subst hparent
      refine ⟨u, p, _, hu, hup, heeds.owner, heeds.hale, fun hrun => ?_, htold, Or.inr ⟨_, _, rfl⟩⟩
      rw [heeds.idle] at hrun
      cases hrun
    | yields resumes _ | returns resumes _ | escapes resumes _ | dies resumes _ => cases resumes
  | _ => exact hfree.elim

/-! ### Along a run -/

/-- Whatever error a task has at the end of a run, it has failed of it during the run, or before. -/
theorem failed_run (w : World σ) (o : RunOptions) {c : Config σ} (n : Nat) {i : Nat} {u : Task}
    {e : Exn} (hu : (run w o n c).machine.registry.get? i = some u) (he : u.error = some e) :
    (∃ u₀, c.machine.registry.get? i = some u₀ ∧ u₀.error = some e) ∨
      ∃ k < n, (run w o k c).control = .fail i e := by
  induction n generalizing u with
  | zero => exact Or.inl ⟨u, hu, he⟩
  | succ n ih =>
    have hlift : (∃ k < n, (run w o k c).control = .fail i e) →
        ∃ k < n + 1, (run w o k c).control = .fail i e :=
      fun ⟨k, hk, hf⟩ => ⟨k, Nat.lt_succ_of_lt hk, hf⟩
    rw [run_succ] at hu
    split at hu
    · exact (ih hu he).imp_right hlift
    · rcases (amends_step w o (run w o n c)).errors hu he with ⟨u', hu', he'⟩ | hf
      · exact (ih hu' he').imp_right hlift
      · exact Or.inr ⟨n, Nat.lt_succ_self n, hf⟩

/-- A task that is about to fail is in hand. -/
theorem failing_core {c : Config σ} {t : Nat} {e : Exn} (hc : c.Sound begun)
    (hfail : c.control = .fail t e) :
    Core begun c.machine.registry [] c.stack (some t) ∧ Nested none c.stack := by
  obtain ⟨m, stack, control⟩ := c
  obtain rfl : control = .fail t e := hfail
  cases hc with
  | failing _ core nested _ _ _ => exact ⟨core, nested⟩

/-- A task that is about to fail has not failed. -/
theorem failing_task {c : Config σ} {t : Nat} {e : Exn} (hc : c.Sound begun)
    (hfail : c.control = .fail t e) :
    ∃ u, c.machine.registry.get? t = some u ∧ u.Free ∧ u.running = false := by
  obtain ⟨m, stack, control⟩ := c
  obtain rfl : control = .fail t e := hfail
  cases hc with
  | failing _ _ _ hu free hr => exact ⟨_, hu, free, hr⟩

/-- Tasks stay. -/
theorem size_run (w : World σ) (o : RunOptions) {c : Config σ} (n : Nat) :
    c.machine.registry.size ≤ (run w o n c).machine.registry.size := by
  induction n with
  | zero => exact Nat.le_refl _
  | succ n ih =>
    rw [run_succ]
    split
    · exact ih
    · exact Nat.le_trans ih (amends_step w o (run w o n c)).size_le

/-- A task that fails has its error from then on. -/
theorem failed_after (w : World σ) (o : RunOptions) {c : Config σ} {t : Nat} {e : Exn}
    (hc : c.Sound begun) (hfail : c.control = .fail t e) :
    ∃ u, (c.step w o).machine.registry.get? t = some u ∧ u.error = some e := by
  obtain ⟨m, stack, control⟩ := c
  obtain rfl : control = .fail t e := hfail
  cases hc with
  | @failing _ u _ _ core nested hu free hr =>
    have hflag :=
      Registry.cancelAll_flagged (m.registry.modify t fun u => { u with error := some e })
      u.children fun _ => False
    obtain ⟨cl, l, hu', _⟩ := hflag.eq_some (Registry.get?_modify_of_eq_some _ hu)
    have hstep : (step w o ⟨m, stack, .fail t e⟩).machine =
        (m.condemn t u.children e).wrapUp o t (.failed e) (.error e) := by
      simp only [step, Machine.fail_eq o hu free.error e]
    have hamends := Machine.amends_wrapUp (m.condemn t u.children e) o t
      (l := licence ⟨m, stack, .fail t e⟩) (Or.inl rfl) (.failed e) (.error e)
    obtain ⟨u'', hu'', ha⟩ := hamends.kept hu'
    rw [hstep]
    exact ⟨u'', hu'', ha.failed e rfl⟩

theorem error_run (w : World σ) (o : RunOptions) {c : Config σ} {i : Nat} {u : Task} {e : Exn}
    (hu : c.machine.registry.get? i = some u) (he : u.error = some e) (n : Nat) :
    ∃ u', (run w o n c).machine.registry.get? i = some u' ∧ u'.error = some e := by
  induction n with
  | zero => exact ⟨u, hu, he⟩
  | succ n ih =>
    rw [run_succ]
    split
    · exact ih
    · obtain ⟨u', hu', he'⟩ := ih
      obtain ⟨u'', hu'', ha⟩ := (amends_step w o (run w o n c)).kept hu'
      exact ⟨u'', hu'', ha.failed e he'⟩

/-- From the step after the one at which it fails on, a task has its error. -/
theorem error_of_fail (w : World σ) (o : RunOptions) {c : Config σ} {k n t : Nat} {e : Exn}
    (hc : c.Sound begun) (hfail : (run w o k c).control = .fail t e) (hk : k < n) :
    ∃ u, (run w o n c).machine.registry.get? t = some u ∧ u.error = some e := by
  obtain ⟨begun', _, hs⟩ := sound_run w o hc k
  obtain ⟨u, hu, he⟩ := failed_after w o hs hfail
  have hone : run w o (k + 1) c = (run w o k c).step w o := by
    rw [run_succ, if_neg]
    simp [isFinal, hfail]
  obtain ⟨j, rfl⟩ := Nat.exists_eq_add_of_le (Nat.succ_le_of_lt hk)
  rw [run_add, hone]
  exact error_run w o hu he j

/-- A task that has not failed yet has not failed before. -/
theorem le_of_hale (w : World σ) (o : RunOptions) {c : Config σ} {k n t : Nat} {e : Exn} {u : Task}
    (hc : c.Sound begun) (hfail : (run w o k c).control = .fail t e)
    (hu : (run w o n c).machine.registry.get? t = some u) (hale : u.error = none) : n ≤ k := by
  refine Nat.not_lt.mp fun hk => ?_
  obtain ⟨v, hv, he⟩ := error_of_fail w o hc hfail hk
  rw [hu, Option.some.injEq] at hv
  rw [← hv, hale] at he
  cases he

/-- A task fails only once. -/
theorem fails_once (w : World σ) (o : RunOptions) {c : Config σ} {k n t : Nat} {e e' : Exn}
    (hc : c.Sound begun) (hfail : (run w o k c).control = .fail t e)
    (hfail' : (run w o n c).control = .fail t e') : k = n := by
  have hle : ∀ {k n : Nat} {e e' : Exn}, (run w o k c).control = .fail t e →
      (run w o n c).control = .fail t e' → n ≤ k := by
    intro k n e e' hfail hfail'
    obtain ⟨begun', _, hs⟩ := sound_run w o hc n
    obtain ⟨v, hv, free, _⟩ := failing_task hs hfail'
    exact le_of_hale w o hc hfail hv free.error
  exact Nat.le_antisymm (hle hfail' hfail) (hle hfail hfail')

end Config

end Rehearsal
