import Rehearsal.Proofs.Engine.Failing
import Rehearsal.Proofs.Engine.GivingUp
import Rehearsal.Proofs.Engine.Ticking
import Rehearsal.Proofs.Engine.Unwinding

/-!
# Errors of the bench

The bench refuses what nothing expects, and reports a run that cannot go on. `Config.Refuses` lists
where that can happen: in the interpretation of an effect, however deep among forks and composites
it is, when a deferred call is made at last, in the main loop, and where a failure reaches a task
nobody answers for. Each gives up the run at once. Nothing is resumed after it, so tested code never
sees such an error, and no task ends with one.
-/
namespace Rehearsal

variable {σ : Type}

/-- A failure of the bench, be it its own or an exception of one of its classes. -/
def Failure.isHarness : Failure → Bool
  | .harness _ => true
  | .exn e => e.kind.isHarness

theorem Failure.control_of_isHarness {f : Failure} (h : f.isHarness = true) :
    f.control = .abort f := by
  cases f with
  | harness _ => rfl
  | exn e =>
    have hkind : e.kind.isOrdinary = false := by
      simp [ErrorClass.isOrdinary, show e.kind.isHarness = true from h]
    exact if_neg (by simp [hkind])

/-- The effect of task `t` is refused with a failure, once its step has been counted. -/
inductive Machine.Refuses (w : World σ) (m : Machine σ) (t : Nat) (inComposite : Bool) :
    Value → Failure → Prop
  | stray {v : Value} (generator : ∀ g, v ≠ .generator g) (effect : ∀ e, v ≠ .effect e)
      (writable : v.hasLong = false) :
      Refuses w m t inComposite v (.harness (.unmatched
        ("Task " ++ m.nameOf t ++ " yielded " ++ v.repr ++ ", which is not an effect")
          (some m.steps)))
  | call {fn : Value} {args : List Value} {kwargs : List (String × Value)} {f : Failure} {s : σ}
      (answer : w.plan m.view ⟨fn, args, kwargs⟩ false m.outer = (.error f, s)) :
      Refuses w m t inComposite (.effect (.call fn args kwargs)) f
  | made {fn : Value} {args : List Value} {kwargs : List (String × Value)}
      {plan : CallPlan} {e : Exn}
      {s : σ} {m' : Machine σ}
      (answer : w.plan m.view ⟨fn, args, kwargs⟩ false m.outer = (.ok plan, s))
      (now : plan.wait = .now)
      (raised :
        ({ m with outer := s } : Machine σ).produce w plan ⟨fn, args, kwargs⟩ = (.error e, m')) :
      Refuses w m t inComposite (.effect (.call fn args kwargs)) (.exn e)
  | fork {fn : Value} {args : List Value} {kwargs : List (String × Value)}
      {detached : Bool} {f : Failure}
      {s : σ} (answer : w.plan m.view ⟨fn, args, kwargs⟩ true m.outer = (.error f, s)) :
      Refuses w m t inComposite (.effect (.fork fn args kwargs detached)) f
  | unhandled {e : Effect} (kind : e.kind = .external) (nobody : w.handler? e = none) :
      Refuses w m t inComposite (.effect e)
        (.harness (.unmatched ("No handler registered for " ++ e.className) (some m.steps)))
  | handler {e : Effect} {react : View → Context → σ → Except Failure Reaction × σ} {f : Failure}
      {s : σ}
      (kind : e.kind = .external) (registered : w.handler? e = some react)
      (answer :
        react m.view ⟨⟨t, m.nameOf t, true⟩, inComposite, m.steps⟩ m.outer = (.error f, s)) :
      Refuses w m t inComposite (.effect e) f
  | invalid {e : Effect} {react : View → Context → σ → Except Failure Reaction × σ} {v : Value}
      {s : σ}
      (kind : e.kind = .external) (registered : w.handler? e = some react)
      (answer : react m.view ⟨⟨t, m.nameOf t, true⟩, inComposite, m.steps⟩ m.outer =
        (.ok (.invalid v), s))
      (writable : v.hasLong = false) :
      Refuses w m t inComposite (.effect e)
        (.harness (.plain ("Handler for " ++ e.className ++ " returned " ++ v.repr)))

/-- The next step meets what the bench refuses, or reports. -/
inductive Config.Refuses (w : World σ) (o : RunOptions) (c : Config σ) : Failure → Prop
  | ceiling {f : Failure} (counted : c.ticks o = true) (past : (c.machine.tick o).1 = .error f) :
      Refuses w o c f
  | effect {t : Nat} {effect : Value} {inComposite : Bool} {f : Failure}
      (control : c.control = .interpret t effect inComposite)
      (counted : (c.machine.tick o).1 = .ok ())
      (refused : (c.machine.tick o).2.Refuses w t inComposite effect f) : Refuses w o c f
  | deferred {t : Nat} {u : Task} {plan : CallPlan} {call : Call} {e : Exn} {m' : Machine σ}
      (control : c.control = .start t) (task : c.machine.get? t = some u)
      (entry : u.entry = some (.planned plan call))
      (raised : (c.machine.modify t fun u => { u with entry := none }).produce w plan call =
        (.error e, m')) :
      Refuses w o c (.exn e)
  | deadlock {root : Nat} {below : List Frame} (control : c.control = .done)
      (stack : c.stack = .loop root :: below) (unsettled : settled o c.machine root = false)
      (counted : (c.machine.tick o).1 = .ok ())
      (stuck : selectReadyBatch c.machine.registry.pendingTasks = []) :
      Refuses w o c (c.machine.tick o).2.deadlock
  | escaped {t : Nat} {e : Exn} {u : Task} (control : c.control = .propagate t e)
      (task : c.machine.get? t = some u) (parent : u.parent = none)
      (heeded : (u.detached && o.swallowSpawnErrors) = false) :
      Refuses w o c (.harness (.testedCode e u.id u.name c.machine.steps))

namespace Machine

variable {w : World σ} {o : RunOptions} {m : Machine σ} {t : Nat}

theorem interpretEffect_external (w : World σ) (m : Machine σ) (t : Nat) {e : Effect} (b : Bool)
    (kind : e.kind = .external) : m.interpretEffect w t e b = m.interpretExternal w t e b := by
  cases e <;> first | rfl | cases kind

theorem interpret_counted (w : World σ) (o : RunOptions) (m : Machine σ) (t : Nat)
    (effect : Value) (b : Bool)
    (h : (m.tick o).1 = .ok ()) :
    m.interpret w o t effect b = match effect with
      | .generator g => .answer (m.tick o).2 (.enter g)
      | .effect e => (m.tick o).2.interpretEffect w t e b
      | v => .report (m.tick o).2 v (.unmatched
          ("Task " ++ (m.tick o).2.nameOf t ++ " yielded " ++ v.repr ++ ", which is not an effect")
          (some (m.tick o).2.steps)) := by
  unfold interpret
  generalize m.tick o = ticked at h ⊢
  obtain ⟨result, m'⟩ := ticked
  obtain rfl : result = .ok () := h
  rfl

theorem Refuses.control {effect : Value} {b : Bool} {f : Failure} (hf : f.isHarness = true)
    (counted : (m.tick o).1 = .ok ()) (h : (m.tick o).2.Refuses w t b effect f) :
    (m.interpret w o t effect b).control = .abort f := by
  rw [interpret_counted w o m t effect b counted]
  generalize (m.tick o).2 = m at h ⊢
  cases h with
  | stray generator effect writable =>
    split
    · exact (generator _ rfl).elim
    · exact (effect _ rfl).elim
    · rw [Outcome.report_of_writable writable]
      rfl
  | call answer =>
    simp only [interpretEffect, interpretCall, answer]
    exact Failure.control_of_isHarness hf
  | made answer now raised =>
    simp only [interpretEffect, interpretCall, answer, if_pos now, raised]
    exact Failure.control_of_isHarness hf
  | fork answer =>
    simp only [interpretEffect, interpretFork, answer]
    exact Failure.control_of_isHarness hf
  | unhandled kind nobody =>
    dsimp only
    rw [interpretEffect_external w m t b kind]
    simp only [interpretExternal, nobody]
    rfl
  | handler kind registered answer =>
    dsimp only
    rw [interpretEffect_external w m t b kind]
    simp only [interpretExternal, registered, answer]
    exact Failure.control_of_isHarness hf
  | invalid kind registered answer writable =>
    dsimp only
    rw [interpretEffect_external w m t b kind]
    simp only [interpretExternal, registered, answer, Outcome.report_of_writable writable]
    rfl

/-! Nothing else is refused with an error of the bench's own. -/

variable {b : Bool} {h : HarnessError}

theorem refuses_of_interpretCall {fn : Value} {args : List Value} {kwargs : List (String × Value)}
    (hc : (m.interpretCall w t ⟨fn, args, kwargs⟩).control = .abort (.harness h)) :
    m.Refuses w t b (.effect (.call fn args kwargs)) (.harness h) := by
  unfold interpretCall at hc
  generalize hplan : w.plan m.view ⟨fn, args, kwargs⟩ false m.outer = answer at hc
  obtain ⟨answer, s⟩ := answer
  cases answer with
  | error f =>
    obtain rfl := (Failure.control_eq_abort hc).1
    exact .call hplan
  | ok plan =>
    dsimp only at hc
    split at hc
    · generalize produce w _ plan ⟨fn, args, kwargs⟩ = made at hc
      obtain ⟨produced, m'⟩ := made
      cases produced with
      | error e => cases (Failure.control_eq_abort (f := .exn e) hc).1
      | ok v =>
        dsimp only at hc
        unfold Machine.produced at hc
        split at hc <;> cases hc
    · cases hc

theorem refuses_of_interpretFork {fn : Value} {args : List Value} {kwargs : List (String × Value)}
    {detached : Bool}
    (hc : (m.interpretFork w t ⟨fn, args, kwargs⟩ detached).control = .abort (.harness h)) :
    m.Refuses w t b (.effect (.fork fn args kwargs detached)) (.harness h) := by
  unfold interpretFork at hc
  generalize hplan : w.plan m.view ⟨fn, args, kwargs⟩ true m.outer = answer at hc
  obtain ⟨answer, s⟩ := answer
  cases answer with
  | error f =>
    obtain rfl := (Failure.control_eq_abort hc).1
    exact .fork hplan
  | ok plan =>
    dsimp only at hc
    split at hc <;> cases hc

theorem refuses_of_interpretExternal {e : Effect} (kind : e.kind = .external)
    (hc : (m.interpretExternal w t e b).control = .abort (.harness h)) :
    m.Refuses w t b (.effect e) (.harness h) := by
  unfold interpretExternal at hc
  split at hc
  · rename_i nobody
    cases hc
    exact .unhandled kind nobody
  · rename_i react registered
    dsimp only at hc
    generalize hanswer : react m.view ⟨⟨t, m.nameOf t, true⟩, b, m.steps⟩ m.outer = answer at hc
    obtain ⟨answer, s⟩ := answer
    cases answer with
    | error f =>
      obtain rfl := (Failure.control_eq_abort hc).1
      exact .handler kind registered hanswer
    | ok reaction =>
      cases reaction with
      | advance v => cases hc
      | defer v wait name => cases hc
      | invalid v =>
        obtain ⟨rfl, writable⟩ := Outcome.report_eq_abort hc
        exact .invalid kind registered hanswer writable

theorem refuses_of_interpretEffect {e : Effect}
    (hc : (m.interpretEffect w t e b).control = .abort (.harness h)) :
    m.Refuses w t b (.effect e) (.harness h) := by
  have hraised : ∀ {m : Machine σ} {e : Exn}, (Outcome.raise m e).control ≠
      .abort (.harness h) := by
    intro m e hc
    cases (Failure.control_eq_abort (f := .exn e) hc).1
  have hcomposite : ∀ {k : Composite}, (m.continueComposite k).control ≠ .abort (.harness h) := by
    intro k hc
    unfold continueComposite at hc
    split at hc
    · rw [concludeComposite_eq] at hc
      split at hc
      · exact hraised hc
      · dsimp only at hc
        split at hc
        · cases hc
        · split at hc <;> cases hc
    · cases hc
  cases hk : e.kind with
  | external => exact refuses_of_interpretExternal hk (interpretEffect_external w m t b hk ▸ hc)
  | _ =>
    cases e with
    | call fn args kwargs => exact refuses_of_interpretCall hc
    | fork fn args kwargs detached => exact refuses_of_interpretFork hc
    | race members => exact (hcomposite hc).elim
    | gather members => exact (hcomposite hc).elim
    | join targets =>
      simp only [interpretEffect, interpretJoin] at hc
      split at hc
      · exact (hraised hc).elim
      · split at hc <;> cases hc
    | cancel targets =>
      simp only [interpretEffect, interpretCancel] at hc
      split at hc
      · exact (hraised hc).elim
      · cases hc
    | cancelSelf => cases hc
    | cancelled =>
      simp only [interpretEffect, interpretCancelled] at hc
      split at hc <;> cases hc
    | delay ticks => cases hc
    | _ => cases hk

theorem refuses_of_interpret {effect : Value}
    (hc : (m.interpret w o t effect b).control = .abort (.harness h)) :
    (m.tick o).1 = .error (.harness h) ∨
      (m.tick o).1 = .ok () ∧ (m.tick o).2.Refuses w t b effect (.harness h) := by
  cases htick : (m.tick o).1 with
  | error f =>
    unfold interpret at hc
    generalize m.tick o = ticked at htick hc
    obtain ⟨result, m'⟩ := ticked
    obtain rfl : result = .error f := htick
    obtain rfl := (Failure.control_eq_abort hc).1
    exact Or.inl rfl
  | ok _ =>
    rw [interpret_counted w o m t effect b htick] at hc
    refine Or.inr ⟨rfl, ?_⟩
    cases effect with
    | generator g => cases hc
    | effect e => exact refuses_of_interpretEffect hc
    | _ =>
      obtain ⟨rfl, writable⟩ := Outcome.report_eq_abort hc
      exact .stray (by simp) (by simp) writable

end Machine

namespace Config

variable {w : World σ} {o : RunOptions} {c : Config σ} {f : Failure}

/-- An exception of the bench's classes ends the run when a deferred call is made. -/
theorem control_afterEntry {e : Exn} (hf : (Failure.exn e).isHarness = true) (m : Machine σ)
    (stack : List Frame) (t : Nat) :
    (afterEntry o m stack t (.error e)).control = .abort (.exn e) := by
  have hcontrol := Failure.control_of_isHarness hf
  unfold Failure.control at hcontrol
  unfold afterEntry
  dsimp only at hcontrol ⊢
  split
  · rename_i hk
    rw [if_pos hk] at hcontrol
    cases hcontrol
  · rfl

/-- **What the bench refuses gives up the run at once.** -/
theorem Refuses.control (hf : f.isHarness = true) (h : c.Refuses w o f) :
    (c.step w o).control = .abort f := by
  obtain ⟨m, stack, control⟩ := c
  cases h with
  | ceiling counted past =>
    rcases step_of_tick_error w counted past with ⟨_, _, _, _, hstep⟩ | ⟨_, _, _, _, hstep⟩
    · rw [hstep]
      exact Failure.control_of_isHarness hf
    · rw [hstep]
  | effect control counted refused =>
    obtain rfl := control
    exact refused.control hf counted
  | deferred control task entry raised =>
    obtain rfl := control
    dsimp only at task raised
    show (start w o m stack _).control = _
    rw [start_eq w o task entry]
    dsimp only
    rw [raised]
    exact control_afterEntry hf ..
  | deadlock control stack unsettled counted stuck =>
    obtain rfl := control
    obtain rfl := stack
    dsimp only at unsettled counted stuck
    have hlt := Machine.lt_of_tick_ok counted
    show (continueLoop o m _).control = _
    rw [continueLoop_stuck unsettled hlt stuck, m.tick_of_lt hlt]
  | escaped control task parent heeded =>
    obtain rfl := control
    dsimp only at task
    show (propagate o m stack _ _).control = _
    unfold propagate
    simp only [task, parent, heeded]
    rfl

/-- A task that is started is never refused with an error of the bench's own. -/
theorem control_start_ne {m : Machine σ} {stack : List Frame} {t : Nat} {h : HarnessError} :
    (start w o m stack t).control ≠ .abort (.harness h) := by
  intro habort
  unfold start at habort
  split at habort
  · cases habort
  · dsimp only at habort
    split at habort
    · cases habort
    · split at habort
      · cases habort
      · cases habort
      · split at habort <;> cases habort

/-- The main loop stops at the ceiling, or in a deadlock. -/
theorem refuses_of_continueLoop {m : Machine σ} {root : Nat} {below : List Frame} {h : HarnessError}
    (habort : (continueLoop o m root).control = .abort (.harness h)) :
    Refuses w o ⟨m, .loop root :: below, .done⟩ (.harness h) := by
  cases hs : settled o m root with
  | true =>
    unfold continueLoop at habort
    rw [if_pos hs] at habort
    cases habort
  | false =>
    rcases Nat.lt_or_ge m.steps o.stepLimit with hlt | hle
    · by_cases hready : selectReadyBatch m.registry.pendingTasks = []
      · have htick := m.tick_of_lt hlt
        have hcontrol : m.counted.deadlock = .harness h := by
          rw [continueLoop_stuck hs hlt hready] at habort
          exact Control.abort.inj habort
        have hdeadlock := @Refuses.deadlock _ w o ⟨m, .loop root :: below, .done⟩ _ _ rfl rfl hs
          (congrArg Prod.fst htick) hready
        rwa [htick, hcontrol] at hdeadlock
      · rcases continueLoop_of_ready hs hlt hready with ⟨trace, heq⟩ | ⟨_, heq⟩
        · rw [heq] at habort
          cases habort
        · rw [heq] at habort
          cases habort
    · obtain ⟨f, htick, heq⟩ := continueLoop_past hs hle
      rw [heq] at habort
      cases habort
      have hticks : ticks o ⟨m, .loop root :: below, .done⟩ = true := by rw [ticks_loop, hs]; rfl
      exact .ceiling hticks (congrArg Prod.fst htick)

/-- **Where an error of the bench's own gives up the run, the bench has refused.** -/
theorem refuses_of_step {begun : Nat → Prop} (hc : c.Sound begun) {h : HarnessError}
    (hgoing : ∀ f, c.control ≠ .abort f) (hstep : (c.step w o).control = .abort (.harness h)) :
    c.Refuses w o (.harness h) := by
  have hexn : ∀ {e : Exn}, (Failure.exn e).control ≠ .abort (.harness h) := by
    intro e habort
    cases (Failure.control_eq_abort habort).1
  have hturn := turn_step w o hc
  generalize hnext : c.step w o = c' at hturn hstep
  cases hturn with
  | refuses stack t effect b f =>
    rw [← hnext] at hstep
    rcases Machine.refuses_of_interpret hstep with past | ⟨counted, refused⟩
    · exact .ceiling rfl past
    · exact .effect rfl counted refused
  | condemns => exact (hexn hstep).elim
  | rethrows => exact (hexn hstep).elim
  | runs _ _ leads => rcases leads with rfl | ⟨v, rfl⟩ | ⟨v, rfl⟩ | rfl <;> cases hstep
  | starts stack t _ =>
    rw [← hnext] at hstep
    exact (control_start_ne hstep).elim
  | surfaces stack e task parent heeded =>
    cases hstep
    exact .escaped rfl task parent heeded
  | climbs _ _ _ leads =>
    rw [leads] at hstep
    split at hstep <;> cases hstep
  | picks _ _ _ leads => rcases leads with rfl | rfl <;> cases hstep
  | stops root f =>
    rw [← hnext] at hstep
    exact refuses_of_continueLoop hstep
  | unwinds stack f => exact (hgoing f rfl).elim
  | _ => cases hstep

/-- A run that is given up for an error of the bench's own has been refused. -/
theorem exists_refuses (hsound : ∀ n, ∃ begun, (run w o n c).Sound begun)
    (hgoing : ∀ f, c.control ≠ .abort f)
    {h : HarnessError} {n : Nat} (habort : (run w o n c).control = .abort (.harness h)) :
    ∃ k < n, (run w o k c).Refuses w o (.harness h) := by
  induction n with
  | zero => exact (hgoing _ habort).elim
  | succ n ih =>
    have hbefore : (run w o n c).control = .abort (.harness h) →
        ∃ k < n + 1, (run w o k c).Refuses w o (.harness h) := by
      intro hb
      obtain ⟨k, hk, refuses⟩ := ih hb
      exact ⟨k, Nat.lt_succ_of_lt hk, refuses⟩
    by_cases hstill : ∃ f, (run w o n c).control = .abort f
    · obtain ⟨f, hf⟩ := hstill
      have hnext := run_abort w o hf 1
      rw [← run_add, habort] at hnext
      cases hnext
      exact hbefore hf
    · rw [run_succ] at habort
      split at habort
      · exact hbefore habort
      · obtain ⟨begun, hc⟩ := hsound n
        exact ⟨n, Nat.lt_succ_self n, refuses_of_step hc (by simpa using hstill) habort⟩

/-! ### After a refusal -/

theorem Refuses.still (h : c.Refuses w o f) : c.control.resumes = false := by
  cases h with
  | ceiling counted _ =>
    obtain ⟨m, stack, control⟩ := c
    cases control with
    | interpret | done => rfl
    | _ => cases counted
  | effect control | deferred control | deadlock control | escaped control => rw [control]; rfl

theorem Refuses.isFinal (h : c.Refuses w o f) : c.isFinal = false := by
  cases h with
  | ceiling counted _ =>
    cases hf : c.isFinal with
    | false => rfl
    | true => rw [not_ticks_of_isFinal hf] at counted; cases counted
  | deadlock control stack => simp [Config.isFinal, stack]
  | effect control | deferred control | escaped control => simp [Config.isFinal, control]

/-- **After a refusal nothing is resumed**, and the run ends with it. -/
theorem Refuses.ends {begun : Nat → Prop} {c : Config (σ × List Exchange)} (hc : c.Sound begun)
    (hf : f.isHarness = true) (h : c.Refuses w.recorded o f) :
    (∀ k, (run w.recorded o k c).resumptions = c.resumptions) ∧
      ∃ n, (run w.recorded o n c).isFinal = true ∧ (run w.recorded o n c).control = .abort f := by
  have habort := h.control hf
  have hgoing := h.isFinal
  constructor
  · intro k
    cases k with
    | zero => rfl
    | succ k =>
      have hkeep := (giveUp_run w.recorded o habort k).2
      rw [run_one w.recorded o hgoing, ← resumptions_step (w := w) (o := o) h.still]
      exact congrArg (fun s => s.2.filter fun x => x.generator?.isSome) hkeep
  · obtain ⟨n, hn⟩ := exists_isFinal_of_abort (sound_step w.recorded o hc) habort
    refine ⟨n + 1, ?_⟩
    rw [run_one w.recorded o hgoing]
    exact ⟨hn, run_abort w.recorded o habort n⟩

/-- While nothing that `P` excludes escapes a generator, nothing that `P` excludes is thrown into
one, provided that `P` holds of every exception that a task may catch. -/
theorem thrown_run {P : Exn → Prop} (hP : ∀ e : Exn, e.kind.isOrdinary = true → P e)
    {c : Config (σ × List Exchange)} (ordinary : ∀ n, (run w.recorded o n c).Ordinary)
    (start : ∀ g e r, .resumed g (.throw e) r ∈ c.machine.outer.2 → P e) (n : Nat)
    (escaped : ∀ g s e, .resumed g s (.raised e) ∈ (run w.recorded o n c).machine.outer.2 → P e) :
    ∀ g e r, .resumed g (.throw e) r ∈ (run w.recorded o n c).machine.outer.2 → P e := by
  induction n with
  | zero => exact start
  | succ n ih =>
    have hgrows : (run w.recorded o n c).machine.outer.2 <+:
        (run w.recorded o (n + 1) c).machine.outer.2 := by
      rw [run_add]
      exact record_run w o (run w.recorded o n c) 1
    have hbefore := ih fun g s e hmem => escaped g s e (hgrows.subset hmem)
    rw [run_succ] at escaped ⊢
    by_cases hf : (run w.recorded o n c).isFinal = true
    · rw [if_pos hf]
      exact hbefore
    · rw [if_neg hf] at escaped ⊢
      have hordinary := ordinary n
      generalize run w.recorded o n c = c' at *
      cases hr : c'.control.resumes with
      | false =>
        intro g e r hmem
        have hnew : .resumed g (.throw e) r ∈ (c'.step w.recorded o).resumptions :=
          List.mem_filter.mpr ⟨hmem, rfl⟩
        rw [resumptions_step hr] at hnew
        exact hbefore g e r (List.mem_filter.mp hnew).1
      | true =>
        obtain ⟨signal, ⟨log, signal', frames, hlog, unwinds, hsignal⟩, hthrows⟩ :=
          step_resumed (w := w) (o := o) c' hr
        rw [hlog] at escaped ⊢
        have hnew := unwinds.thrown (P := P)
          (fun e he => hP e (hordinary.control e (hthrows e (hsignal e he))))
          fun g s e hmem => escaped g s e (List.mem_append_right _ hmem)
        intro g e r hmem
        rcases List.mem_append.mp hmem with hmem | hmem
        · exact hbefore g e r hmem
        · exact hnew g e r hmem

end Config

theorem ErrorClass.not_isHarness_of_isOrdinary {k : ErrorClass} (h : k.isOrdinary = true) :
    k.isHarness = false := by
  simp only [isOrdinary, Bool.and_eq_true, Bool.not_eq_true'] at h
  exact h.2

open Config in
/-- **Tested code neither catches nor outlives an error of the bench.** As soon as the bench refuses
something, or reports that the run cannot go on, no coroutine is resumed any more and nothing is
thrown into one, and the run ends with that very failure; no other run ends with an error of the
bench's own. No task fails of an exception of the bench's classes, and unless tested code raises
such an exception itself, none is thrown into a generator. -/
theorem harness_errors_end_runs (w : World σ) (o : RunOptions) (outer : σ)
    (name : String) (g n : Nat) :
    (∀ f, (run w.recorded o n (launched (outer, []) name g)).Refuses w.recorded o f →
      f.isHarness = true →
      (∀ k, (run w.recorded o (n + k) (launched (outer, []) name g)).resumptions =
        (run w.recorded o n (launched (outer, []) name g)).resumptions) ∧
      ∃ k, (run w.recorded o (n + k) (launched (outer, []) name g)).isFinal = true ∧
        (run w.recorded o (n + k) (launched (outer, []) name g)).control = .abort f) ∧
    (∀ h, (run w.recorded o n (launched (outer, []) name g)).control = .abort (.harness h) →
      ∃ k < n,
      (run w.recorded o k (launched (outer, []) name g)).Refuses w.recorded o (.harness h)) ∧
    (∀ i u e, (run w.recorded o n (launched (outer, []) name g)).machine.registry.get? i = some u →
      u.error = some e → e.kind.isHarness = false) ∧
    ((∀ g' s e, .resumed g' s (.raised e) ∈
        (run w.recorded o n (launched (outer, []) name g)).machine.outer.2 →
        e.kind.isHarness = false) →
      ∀ g' e r, .resumed g' (.throw e) r ∈
        (run w.recorded o n (launched (outer, []) name g)).machine.outer.2 →
        e.kind.isHarness = false) := by
  have hsound := sound_reached w.recorded o (outer, []) name g
  have hordinary := ordinary_run w.recorded o (sound_launched (outer, []) name g)
    (ordinary_launched (outer, []) name g)
  refine ⟨fun f refuses hf => ?_, fun h habort => ?_, fun i u e hu he => ?_, fun escaped => ?_⟩
  · obtain ⟨begun, hc⟩ := hsound n
    obtain ⟨hquiet, k, hend⟩ := refuses.ends hc hf
    refine ⟨fun k => ?_, k, ?_⟩
    · rw [run_add]
      exact hquiet k
    · rw [run_add]
      exact hend
  · exact exists_refuses hsound (by simp [launched, Machine.launch]) habort
  · exact ErrorClass.not_isHarness_of_isOrdinary ((hordinary n).errors i u e hu he)
  · refine thrown_run (P := fun e => e.kind.isHarness = false)
      (fun e he => ErrorClass.not_isHarness_of_isOrdinary he) hordinary ?_ n escaped
    intro g' e r hmem
    cases hmem

/-- A program that calls one that gathers a number. -/
def Playbook.straying : Playbook where
  responses
    | 0 => [.yielded (.effect (.call .null [] [])), .returned (.text "over")]
    | 1 => [.yielded (.effect (.gather (.listed [.int 5]))), .returned .null]
    | _ => []
  plans := [⟨false, .generator 1, none, .now⟩]

/-- The number is refused for a placeholder, and neither generator is resumed again. -/
theorem stray_number_ends_run :
    ∃ h k, (Config.run Playbook.world.recorded .default (4 + k)
        (Config.launched (Playbook.straying, []) "root" 0)).control = .abort (.harness h) ∧
      (Config.run Playbook.world.recorded .default (4 + k)
        (Config.launched (Playbook.straying, []) "root" 0)).resumptions =
        (Config.run Playbook.world.recorded .default 4
          (Config.launched (Playbook.straying, []) "root" 0)).resumptions := by
  have hrefuses : ∃ h, (Config.run Playbook.world.recorded .default 4
      (Config.launched (Playbook.straying, []) "root" 0)).Refuses Playbook.world.recorded .default
        (.harness h) :=
    ⟨_, @Config.Refuses.effect _ _ _ _ 1 (.int 5) true _ rfl rfl
      (@Machine.Refuses.stray _ _ _ _ _ (.int 5) (by simp) (by simp) (by decide +kernel))⟩
  obtain ⟨h, refuses⟩ := hrefuses
  obtain ⟨hquiet, k, _, hcontrol⟩ :=
    (harness_errors_end_runs Playbook.world .default Playbook.straying "root" 0
    4).1 _ refuses rfl
  exact ⟨h, k, hcontrol, hquiet k⟩

end Rehearsal
