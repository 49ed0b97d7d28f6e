import Rehearsal.Proofs.Engine.Reachable

/-!
# Why a run is given up

An exception of tested code looks for a task that catches it; everything else ends the run.
`Grounds` lists what a step can give up on: an exception that no task may catch, a refusal of the
world, an effect that nobody handles, or one of the three reports that only the scheduler makes: a
step counter past its ceiling, a deadlock, and an exception that escaped a task nobody answers for;
or the main loop cannot write what it has to report.
-/
namespace Rehearsal

variable {σ : Type}

/-- The grounds on which the next step gives up the run with a failure. -/
inductive Config.Grounds (w : World σ) (o : RunOptions) (c : Config σ) : Failure → Prop
  | fatal {e : Exn} (kind : e.kind.isOrdinary = false) : Grounds w o c (.exn e)
  | plan {view : View} {call : Call} {forked : Bool} {s : σ} {h : HarnessError}
      (refusal : (w.plan view call forked s).1 = .error (.harness h)) : Grounds w o c (.harness h)
  | handler {effect : Effect} {react : View → Context → σ → Except Failure Reaction × σ}
      {view : View}
      {context : Context} {s : σ} {h : HarnessError} (registered : w.handler? effect = some react)
      (refusal : (react view context s).1 = .error (.harness h)) : Grounds w o c (.harness h)
  | unmatched (message : String) (step : Option Nat) :
      Grounds w o c (.harness (.unmatched message step))
  | plain (message : String) : Grounds w o c (.harness (.plain message))
  | stepLimit (dump : TaskDump) (steps : Nat) :
      Grounds w o c (.harness (.stopped dump steps .stepLimit))
  | deadlock {root : Nat} {below : List Frame} {dump : TaskDump} (control : c.control = .done)
      (stack : c.stack = .loop root :: below) (unsettled : settled o c.machine root = false)
      (stuck : selectReadyBatch c.machine.registry.pendingTasks = [])
      (written : c.machine.registry.dump "Deadlock: " = .ok dump) :
      Grounds w o c (.harness (.stopped dump (c.machine.steps + 1) .deadlock))
  | unwritten {steps : Nat} (between : (∃ finished, c.control = .bubble finished) ∨
      c.control = .done ∧ ∃ root below, c.stack = .loop root :: below) :
      Grounds w o c (.exn ((longRefusal none).at (.scheduler steps)))
  | escaped {t : Nat} {e : Exn} {u : Task} (control : c.control = .propagate t e)
      (task : c.machine.get? t = some u) (parent : u.parent = none)
      (heeded : (u.detached && o.swallowSpawnErrors) = false) :
      Grounds w o c (.harness (.testedCode e u.id u.name c.machine.steps))

/-- A failure that gives up the run is the one reported, and no exception that a task may catch. -/
theorem Failure.control_eq_abort {f f' : Failure} (h : f.control = .abort f') :
    f' = f ∧ ∀ e, f = .exn e → e.kind.isOrdinary = false := by
  unfold control at h
  cases f with
  | harness _ =>
    cases h
    exact ⟨rfl, nofun⟩
  | exn e =>
    dsimp only at h
    split at h
    · cases h
    · rename_i hk
      cases h
      refine ⟨rfl, ?_⟩
      rintro _ ⟨⟩
      simpa using hk

namespace Config.Grounds

variable {w : World σ} {o : RunOptions} {c : Config σ} {f : Failure}

/-- An exception gives up the run only if no task may catch it. -/
theorem of_exn {e : Exn} (h : (Failure.exn e).control = .abort f) : Grounds w o c f := by
  obtain ⟨rfl, hk⟩ := Failure.control_eq_abort h
  exact .fatal (hk e rfl)

/-- What is raised gives up the run only if no task may catch it. -/
theorem of_raise {m : Machine σ} {e : Exn} (h : (Outcome.raise m e).control = .abort f) :
    Grounds w o c f := of_exn h

/-- A failure of the world gives up the run on grounds that the world answers for. -/
theorem of_failure {f' : Failure} (h : f'.control = .abort f)
    (hw : ∀ e, f' = .harness e → Grounds w o c (.harness e)) : Grounds w o c f := by
  obtain ⟨rfl, hk⟩ := Failure.control_eq_abort h
  cases f with
  | harness e => exact hw e rfl
  | exn e => exact .fatal (hk e rfl)

/-! ### Interpretation -/

variable {m : Machine σ} {t : Nat}

theorem of_report {v : Value} {x : HarnessError} (h : (Outcome.report m v x).control = .abort f)
    (hx : Grounds w o c (.harness x)) : Grounds w o c f := by
  rcases Outcome.report_cases m v x with heq | ⟨_, heq⟩
  · rw [heq] at h
    cases h
    exact hx
  · rw [heq] at h
    exact of_raise h

theorem of_interpretCall {call : Call} (h : (m.interpretCall w t call).control = .abort f) :
    Grounds w o c f := by
  unfold Machine.interpretCall at h
  generalize hplan : w.plan m.view call false m.outer = answer at h
  obtain ⟨answer, s⟩ := answer
  cases answer with
  | error f' =>
    refine of_failure h ?_
    rintro e rfl
    exact .plan (congrArg Prod.fst hplan)
  | ok plan =>
    dsimp only at h
    split at h
    · generalize Machine.produce w _ plan call = made at h
      obtain ⟨produced, m'⟩ := made
      cases produced with
      | error e => exact of_raise h
      | ok v =>
        dsimp only at h
        unfold Machine.produced at h
        split at h <;> cases h
    · cases h

theorem of_interpretFork {call : Call} {detached : Bool}
    (h : (m.interpretFork w t call detached).control = .abort f) : Grounds w o c f := by
  unfold Machine.interpretFork at h
  generalize hplan : w.plan m.view call true m.outer = answer at h
  obtain ⟨answer, s⟩ := answer
  cases answer with
  | error f' =>
    refine of_failure h ?_
    rintro e rfl
    exact .plan (congrArg Prod.fst hplan)
  | ok plan =>
    dsimp only at h
    split at h <;> cases h

theorem of_interpretJoin {targets : Targets} (h : (m.interpretJoin targets).control = .abort f) :
    Grounds w o c f := by
  unfold Machine.interpretJoin at h
  split at h
  · exact of_raise h
  · dsimp only at h
    split at h <;> cases h

theorem of_interpretCancel {targets : Targets}
    (h : (m.interpretCancel targets).control = .abort f) :
    Grounds w o c f := by
  unfold Machine.interpretCancel at h
  split at h
  · exact of_raise h
  · cases h

theorem of_continueComposite {k : Composite} (h : (m.continueComposite k).control = .abort f) :
    Grounds w o c f := by
  unfold Machine.continueComposite at h
  split at h
  · rw [Machine.concludeComposite_eq] at h
    split at h
    · exact of_raise h
    · dsimp only at h
      split at h
      · cases h
      · split at h <;> cases h
  · cases h

theorem of_interpretExternal {e : Effect} {inComposite : Bool}
    (h : (m.interpretExternal w t e inComposite).control = .abort f) : Grounds w o c f := by
  unfold Machine.interpretExternal at h
  split at h
  · cases h
    exact .unmatched _ _
  · rename_i react hreact
    dsimp only at h
    generalize hreaction :
      react m.view ⟨⟨t, m.nameOf t, true⟩, inComposite, m.steps⟩ m.outer = answer at h
    obtain ⟨answer, s⟩ := answer
    cases answer with
    | error f' =>
      refine of_failure h ?_
      rintro e rfl
      exact .handler hreact (congrArg Prod.fst hreaction)
    | ok reaction =>
      cases reaction with
      | advance v => cases h
      | defer v wait name => cases h
      | invalid v => exact of_report h (.plain _)

theorem of_interpretEffect {e : Effect} {inComposite : Bool}
    (h : (m.interpretEffect w t e inComposite).control = .abort f) : Grounds w o c f := by
  unfold Machine.interpretEffect at h
  split at h
  · exact of_interpretCall h
  · exact of_interpretFork h
  · exact of_interpretJoin h
  · exact of_continueComposite h
  · exact of_continueComposite h
  · exact of_interpretCancel h
  · cases h
  · unfold Machine.interpretCancelled at h
    split at h <;> cases h
  · cases h
  · exact of_interpretExternal h

theorem of_interpret {effect : Value} {inComposite : Bool}
    (h : (m.interpret w o t effect inComposite).control = .abort f) : Grounds w o c f := by
  unfold Machine.interpret at h
  rcases Nat.lt_or_ge m.steps o.stepLimit with hlt | hle
  · rw [m.tick_of_lt hlt] at h
    dsimp only at h
    split at h
    · cases h
    · exact of_interpretEffect h
    · exact of_report h (.unmatched _ _)
  · obtain ⟨f', heq, ⟨_, dump, rfl⟩ | ⟨_, rfl⟩⟩ := m.tick_of_le hle
    · rw [heq] at h
      cases h
      exact .stepLimit dump _
    · rw [heq] at h
      exact of_raise h

/-! ### Everything else -/

variable {stack : List Frame}

theorem of_withCoroutine {go : Coroutine → σ → Progress × Coroutine × σ}
    (h : (withCoroutine m stack t go).control = .abort f) : Grounds w o c f := by
  unfold withCoroutine at h
  split at h
  · cases h
  · rename_i co _
    dsimp only at h
    unfold afterProgress at h
    split at h
    · cases h
    · cases h
    · split at h
      · cases h
      · rename_i hk
        cases h
        exact .fatal (by simpa using hk)

theorem of_deliver {a : Answer} (h : (deliver w o m a stack).control = .abort f) :
    Grounds w o c f := by
  unfold deliver at h
  split at h
  · split at h
    · exact of_withCoroutine h
    · exact of_withCoroutine h
    · cases h
  · dsimp only at h
    split at h <;> cases h
  · cases h

theorem of_catchException {e : Exn} (h : (catchException w m e stack).control = .abort f) :
    Grounds w o c f := by
  unfold catchException at h
  split at h
  · exact of_withCoroutine h
  all_goals cases h

theorem of_start (h : (start w o m stack t).control = .abort f) : Grounds w o c f := by
  unfold start at h
  split at h
  · cases h
  · dsimp only at h
    split at h
    · cases h
    · split at h
      · cases h
      · cases h
      · split at h
        · cases h
        · rename_i hk
          cases h
          exact .fatal (by simpa using hk)

theorem of_runTask (h : (runTask m stack t).control = .abort f) : Grounds w o c f := by
  unfold runTask at h
  split at h
  · cases h
  · split at h
    · cases h
    · cases h
    · dsimp only at h
      split at h
      · split at h <;> cases h
      · split at h <;> cases h

theorem of_propagate {e : Exn} (hm : c.machine = m) (hc : c.control = .propagate t e)
    (h : (propagate o m stack t e).control = .abort f) : Grounds w o c f := by
  unfold propagate at h
  split at h
  · cases h
  · rename_i u hu
    split at h
    · rename_i hp
      split at h
      · cases h
      · rename_i hd
        cases h
        subst hm
        exact .escaped hc hu hp (by simpa using hd)
    · split at h
      · cases h
      · split at h
        · cases h
        · split at h
          · cases h
          · generalize abandon m _ t = dropped at h
            obtain ⟨direct, m'⟩ := dropped
            dsimp only at h
            split at h <;> cases h

theorem of_continueRound {finished rest : List Nat}
    (h : (continueRound m stack finished rest).control = .abort f) : Grounds w o c f := by
  unfold continueRound at h
  split at h
  · cases h
  · dsimp only at h
    split at h
    · cases h
    · split at h
      · cases h
      · split at h
        · cases h
        · split at h
          · cases h
          · split at h
            · cases h
            · split at h <;> cases h

theorem of_continueLoop {root : Nat} {below : List Frame} (hm : c.machine = m)
    (hc : c.control = .done) (hs : c.stack = .loop root :: below)
    (h : (continueLoop o m root).control = .abort f) : Grounds w o c f := by
  have unwritten : ∀ {steps}, Grounds w o c (.exn ((longRefusal none).at (.scheduler steps))) :=
    .unwritten (Or.inr ⟨hc, root, below, hs⟩)
  unfold continueLoop at h
  split at h
  · cases h
  · rename_i hopen
    rcases Nat.lt_or_ge m.steps o.stepLimit with hlt | hle
    · rw [m.tick_of_lt hlt] at h
      dsimp only at h
      split at h
      · rename_i hempty
        cases h
        rcases m.counted.stopped_cases "Deadlock: "
          .deadlock with ⟨_, dump, written, heq⟩ | ⟨_, heq⟩
        · rw [Machine.deadlock, heq]
          subst hm
          exact .deadlock hc hs (by simpa using hopen) (List.isEmpty_iff.mp hempty) written
        · rw [Machine.deadlock, heq]
          exact unwritten
      · rcases m.counted.noteUnblocking_cases (o := o) with ⟨trace, heq⟩ | ⟨_, heq⟩
        · rw [heq] at h
          cases h
        · rw [heq] at h
          cases h
          exact unwritten
    · obtain ⟨f', heq, ⟨_, dump, rfl⟩ | ⟨_, rfl⟩⟩ := m.tick_of_le hle
      · rw [heq] at h
        cases h
        exact .stepLimit dump _
      · rw [heq] at h
        cases h
        exact unwritten

theorem of_proceed (hm : c.machine = m) (hc : c.control = .done)
    (h : (proceed o m c.stack).control = .abort f) : Grounds w o c f := by
  match hs : c.stack with
  | [] => rw [hs] at h; cases h
  | .driving _ :: _ => rw [hs] at h; cases h
  | .member _ :: _ => rw [hs] at h; cases h
  | .composite k :: _ =>
    rw [hs] at h
    exact of_continueComposite (m := m) (k := k) h
  | .forked child :: _ =>
    rw [hs] at h
    have h' : (m.afterFork child).control = .abort f := h
    unfold Machine.afterFork at h'
    split at h'
    · split at h'
      · split at h'
        · cases h'
        · exact of_raise h'
      · cases h'
    · exact of_raise h'
  | .batch rest :: below =>
    rw [hs] at h
    have h' : (continueBatch m below rest).control = .abort f := h
    unfold continueBatch at h'
    split at h'
    · cases h'
    · split at h'
      · split at h' <;> cases h'
      · cases h'
  | .round finished rest :: below =>
    rw [hs] at h
    have h' : (continueRound m below finished rest).control = .abort f := h
    exact of_continueRound h'
  | .loop root :: below =>
    rw [hs] at h
    exact of_continueLoop hm hc hs h

end Config.Grounds

/-- **A run is given up on grounds.** -/
theorem Config.grounds_of_step (w : World σ) (o : RunOptions) {c : Config σ} {f : Failure}
    (hgoing : ∀ f, c.control ≠ .abort f) (h : (c.step w o).control = .abort f) :
    c.Grounds w o f := by
  obtain ⟨m, stack, control⟩ := c
  cases control with
  | done => exact Grounds.of_proceed (c := ⟨m, stack, .done⟩) rfl rfl h
  | raised e => exact Grounds.of_catchException h
  | abort f' => exact (hgoing f' rfl).elim
  | answer a => exact Grounds.of_deliver h
  | drive t s => exact Grounds.of_withCoroutine h
  | interpret t effect inComposite => exact Grounds.of_interpret h
  | runTask t => exact Grounds.of_runTask h
  | start t => exact Grounds.of_start h
  | complete t v => cases h
  | fail t e =>
    unfold step at h
    dsimp only at h
    split at h <;> cases h
  | propagate t e => exact Grounds.of_propagate (c := ⟨m, stack, .propagate t e⟩) rfl rfl h
  | bubble finished =>
    have h' : (bubble o m stack finished).control = .abort f := h
    rcases bubble_cases o m stack finished with ⟨_, heq⟩ | ⟨_, ⟨trace, heq⟩ | ⟨_, heq⟩⟩
    · rw [heq] at h'
      cases h'
    · rw [heq] at h'
      cases h'
    · rw [heq] at h'
      cases h'
      exact .unwritten (Or.inl ⟨finished, rfl⟩)

def HarnessError.isVerdict : HarnessError → Bool
  | testedCode .. | stopped .. => true
  | _ => false

/-- Plans and handlers do not answer with verdicts on a run. -/
structure World.Candid (w : World σ) : Prop where
  plan : ∀ {view call forked s h}, (w.plan view call forked s).1 = .error (.harness h) →
    h.isVerdict = false
  handler : ∀ {effect react view context s h}, w.handler? effect = some react →
    (react view context s).1 = .error (.harness h) → h.isVerdict = false

theorem Playbook.world_candid : Playbook.world.Candid where
  plan := by
    intro view call forked s h hp
    simp only [world] at hp
    split at hp <;> cases hp
  handler := nofun

namespace Config.Grounds

variable {w : World σ} {o : RunOptions} {c : Config σ}

/-- A deadlock is found by the main loop. -/
theorem deadlock_inv (hw : w.Candid) {d : TaskDump} {s : Nat}
    (h : Grounds w o c (.harness (.stopped d s .deadlock))) :
    ∃ root below, c.control = .done ∧ c.stack = .loop root :: below ∧
      settled o c.machine root = false ∧ selectReadyBatch c.machine.registry.pendingTasks = [] ∧
      c.machine.registry.dump "Deadlock: " = .ok d ∧ s = c.machine.steps + 1 := by
  cases h with
  | plan refusal => cases hw.plan refusal
  | handler registered refusal => cases hw.handler registered refusal
  | deadlock control stack unsettled stuck written =>
    exact ⟨_, _, control, stack, unsettled, stuck, written, rfl⟩

/-- Tested code is blamed for an exception that is propagated from a task without a parent. -/
theorem testedCode_inv (hw : w.Candid) {e : Exn} {id : Option Nat} {name : Option String}
    {s : Option Nat} (h : Grounds w o c (.harness (.testedCode e id name s))) :
    ∃ t u, c.control = .propagate t e ∧ c.machine.get? t = some u ∧ u.parent = none ∧
      (u.detached && o.swallowSpawnErrors) = false ∧ id = some u.id ∧ name = some u.name ∧
      s = some c.machine.steps := by
  cases h with
  | plan refusal => cases hw.plan refusal
  | handler registered refusal => cases hw.handler registered refusal
  | escaped control task parent heeded => exact ⟨_, _, control, task, parent, heeded, rfl, rfl, rfl⟩

end Config.Grounds

end Rehearsal
