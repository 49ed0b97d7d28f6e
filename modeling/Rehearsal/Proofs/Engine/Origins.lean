import Rehearsal.Proofs.Engine.Coroutines
import Rehearsal.Proofs.Engine.Refusing

/-!
# Where exceptions come from

A call that is still to be made was planned, and what it is planned to raise is on record with its
plan. So whatever exception gives up a run has come out of an answer of the world, unless it takes
the place of a report that cannot be written: a generator or a function raised it, the planner or a
handler did, or a plan said that a call is to raise it.
-/
namespace Rehearsal

variable {σ : Type} {begun : Nat → Prop} {w : World σ} {o : RunOptions}

/-- The exception that came out of the world, or that a call is planned to raise. -/
def Exchange.raised? : Exchange → Option Exn
  | .resumed _ _ (.raised e) => some e
  | .invoked _ (.error e) => some e
  | .planned _ _ (.error (.exn e)) => some e
  | .planned _ _ (.ok plan) => plan.error
  | .handled _ _ (.error (.exn e)) => some e
  | _ => none

/-! ### Calls that are still to be made -/

def Machine.Planned (m : Machine (σ × List Exchange)) : Prop :=
  ∀ i u plan call, m.registry.get? i = some u → u.entry = some (.planned plan call) →
    ∃ forked, .planned call forked (.ok plan) ∈ m.outer.2

namespace Machine

variable {m : Machine (σ × List Exchange)} {t : Nat} {plan : CallPlan} {call : Call}

theorem Planned.of_inherits {m' : Machine (σ × List Exchange)} (h : m.Planned)
    (inherits :
      ∀ plan call, m.registry.Inherits (fun u => u.entry = some (.planned plan call)) m'.registry ∨
      ∃ forked, .planned call forked (.ok plan) ∈ m'.outer.2)
    (grows : m.outer.2 <+: m'.outer.2) : m'.Planned := by
  intro i u' plan call hu' he
  rcases inherits plan call with hold | hnew
  · obtain ⟨u, hu, he⟩ := hold.origin hu' he
    obtain ⟨forked, hmem⟩ := h i u plan call hu he
    exact ⟨forked, grows.subset hmem⟩
  · exact hnew

theorem plan_recorded (w : World σ) (view : View) (call : Call) (forked : Bool)
    (s : σ × List Exchange) :
    w.recorded.plan view call forked s =
      ((w.plan view call forked s.1).1, (w.plan view call forked s.1).2,
      s.2 ++ [.planned call forked (w.plan view call forked s.1).1]) := rfl

/-- A task is made for a call whose plan is on record. -/
theorem entries_create (m : Machine (σ × List Exchange)) {plan' : CallPlan}
    {call' : Call} {forked : Bool}
    (hmem : .planned call' forked (.ok plan') ∈ m.outer.2) (name : String)
    (wait : Wait) (parent : Option Nat)
    (detached : Bool) :
    let made := (m.create name wait parent detached (some (.planned plan' call'))).1
    m.registry.Inherits (fun u => u.entry = some (.planned plan call)) made.registry ∨
      ∃ forked, .planned call forked (.ok plan) ∈ made.outer.2 := by
  dsimp only
  rw [create_eq]
  by_cases hsame : plan' = plan ∧ call' = call
  · obtain ⟨rfl, rfl⟩ := hsame
    exact Or.inr ⟨forked, hmem⟩
  · refine Or.inl (.create (Task.trait_entry _) _ _ _ _ fun u _ he he' => hsame ?_)
    rw [he, Option.some.injEq, Entry.planned.injEq] at he'
    exact he'

theorem entries_interpretCall (w : World σ) (m : Machine (σ × List Exchange))
    (t : Nat) (call' : Call) :
    m.registry.Inherits (fun u => u.entry = some (.planned plan call))
        (m.interpretCall w.recorded t call').machine.registry ∨
      ∃ forked,
      .planned call forked (.ok plan) ∈ (m.interpretCall w.recorded t call').machine.outer.2 := by
  unfold interpretCall
  rw [plan_recorded]
  generalize w.plan m.view call' false m.outer.1 = asked
  obtain ⟨answer, s⟩ := asked
  cases answer with
  | error f => exact Or.inl (.refl _ _)
  | ok plan' =>
    dsimp only
    split
    · refine Or.inl ?_
      have hreg := registry_produce w.recorded
        ({ m with outer := (s, m.outer.2 ++ [.planned call' false (.ok plan')]) } :
          Machine _) plan' call'
      generalize Machine.produce _ _ plan' call' = made at hreg ⊢
      obtain ⟨produced, m'⟩ := made
      dsimp only at hreg
      cases produced with
      | error e => exact hreg ▸ .refl _ _
      | ok v =>
        dsimp only
        unfold Machine.produced
        split <;> exact hreg ▸ .refl _ _
    · exact entries_create { m with outer := (s, m.outer.2 ++ [.planned call' false (.ok plan')]) }
        (List.mem_append_right _ (List.mem_singleton_self _)) call'.name plan'.wait (some t) false

theorem entries_interpretFork (w : World σ) (m : Machine (σ × List Exchange))
    (t : Nat) (call' : Call)
    (detached : Bool) :
    m.registry.Inherits (fun u => u.entry = some (.planned plan call))
        (m.interpretFork w.recorded t call' detached).machine.registry ∨
      ∃ forked, .planned call forked
        (.ok plan) ∈ (m.interpretFork w.recorded t call' detached).machine.outer.2 := by
  unfold interpretFork
  rw [plan_recorded]
  generalize w.plan m.view call' true m.outer.1 = asked
  obtain ⟨answer, s⟩ := asked
  cases answer with
  | error f => exact Or.inl (.refl _ _)
  | ok plan' =>
    have hmade := fun parent => @entries_create σ plan call
      { m with outer := (s, m.outer.2 ++ [.planned call' true (.ok plan')]) } plan' call' true
      (List.mem_append_right _ (List.mem_singleton_self _)) call'.name plan'.wait parent detached
    dsimp only at hmade ⊢
    split <;> exact hmade (if detached then none else some (m.registry.coroutineOwner t))

/-- An effect that needs no plan leaves no call to be made. -/
theorem inherits_unplanned (w : World σ) (m : Machine σ) (t : Nat) (e : Effect) (b : Bool)
    (hcall : ∀ fn args kwargs, e ≠ .call fn args kwargs)
    (hfork : ∀ fn args kwargs d, e ≠ .fork fn args kwargs d) :
    m.registry.Inherits (fun u => u.entry = some (.planned plan call))
      (m.interpretEffect w t e b).machine.registry := by
  have trait := Task.trait_entry (.planned plan call)
  have hflags :
      ∀ {r : Registry}, m.registry.Amends ⟨fun _ => False, fun _ => False, fun _ _ => False,
      fun _ => True, False⟩ r →
      m.registry.Inherits (fun u => u.entry = some (.planned plan call)) r :=
    fun h => .of_amends trait h (fun _ => id) False.elim
  unfold interpretEffect
  split
  · exact (hcall _ _ _ rfl).elim
  · exact (hfork _ _ _ _ rfl).elim
  · exact hflags (m.amends_interpretJoin _)
  · exact m.inherits_continueComposite trait _
  · exact m.inherits_continueComposite trait _
  · exact hflags (m.amends_interpretCancel _)
  · exact .flagged trait (Registry.cancelTree_flagged _ _ fun _ => False)
  · unfold interpretCancelled
    split <;> exact .refl _ _
  · unfold interpretDelay
    rw [create_eq]
    exact .create trait _ _ _ _ fun _ => trait.bare
  · unfold interpretExternal
    split
    · exact .refl _ _
    · rename_i handler _
      dsimp only
      generalize handler m.view _ m.outer = reacted
      obtain ⟨reaction, s⟩ := reacted
      cases reaction with
      | error f => exact .refl _ _
      | ok reaction =>
        cases reaction with
        | advance v => exact .refl _ _
        | defer v wait name =>
          dsimp only
          rw [create_eq]
          exact .create trait _ _ _ _ fun u _ he he' => by simp [he] at he'
        | invalid v => exact .refl _ _

theorem entries_interpret (w : World σ) (o : RunOptions) (m : Machine (σ × List Exchange)) (t : Nat)
    (effect : Value) (b : Bool) :
    m.registry.Inherits (fun u => u.entry = some (.planned plan call))
        (m.interpret w.recorded o t effect b).machine.registry ∨
      ∃ forked,
      .planned call forked (.ok plan) ∈ (m.interpret w.recorded o t effect b).machine.outer.2 := by
  rcases m.interpret_cases w.recorded o t effect
    b with ⟨f, heq⟩ | ⟨g, _, heq⟩ | ⟨e, _, heq⟩ <;> rw [heq]
  · exact Or.inl (.refl _ _)
  · exact Or.inl (.refl _ _)
  · cases e with
    | call fn args kwargs => exact entries_interpretCall w m.counted t ⟨fn, args, kwargs⟩
    | fork fn args kwargs detached =>
      exact entries_interpretFork w m.counted t ⟨fn, args, kwargs⟩ detached
    | _ => exact Or.inl (inherits_unplanned w.recorded m.counted t _ b (by simp) (by simp))

end Machine

namespace Config

/-- One step only adds to the record. -/
theorem record_step (w : World σ) (o : RunOptions) (c : Config (σ × List Exchange)) :
    c.machine.outer.2 <+: (c.step w.recorded o).machine.outer.2 :=
  outer_step (w.recorded_closed c.machine.outer.2) o (List.prefix_refl _)

/-- **No call is left to be made that was not planned.** -/
theorem planned_step (w : World σ) (o : RunOptions) {c : Config (σ × List Exchange)}
    (h : c.machine.Planned) :
    (c.step w.recorded o).machine.Planned := by
  refine h.of_inherits (fun plan call => ?_) (record_step w o c)
  by_cases hi : ∃ t effect b, c.control = .interpret t effect b
  · obtain ⟨m, stack, control⟩ := c
    obtain ⟨t, effect, b, rfl⟩ := hi
    exact Machine.entries_interpret w o m t effect b
  · refine Or.inl ⟨fun {i u'} hu' he => ?_⟩
    rcases (springs_step (Task.trait_entry (.planned plan call)) w.recorded o c
        fun h => (hi h).elim).origin
        hu' he with hold | ⟨-, u, co, hnone, rfl⟩
    · exact hold
    · exact (hnone he).elim

end Config

/-! ### Exceptions that give up a run -/

/-- The world has raised the exception. -/
def Config.Sourced (c : Config (σ × List Exchange)) (e : Exn) :
    Prop := ∃ x ∈ c.machine.outer.2, x.raised? = some e

/-- What escapes a coroutine was raised by one of its generators, unless it had none left. -/
theorem Coroutine.advance_raised (w : World σ) (view : View) (spent : Exn)
    (signal : Signal) (frames : List Nat)
    (s : σ × List Exchange) {e : Exn}
    (h : (advance (w.recorded.resume view) spent signal frames s).1 = .raised e) :
    e = spent ∨ ∃ x ∈ (advance (w.recorded.resume view) spent signal frames s).2.2.2,
    x.raised? = some e := by
  induction frames generalizing signal s with
  | nil =>
    cases h
    exact Or.inl rfl
  | cons g below ih =>
    have hresume : w.recorded.resume view g signal s =
        ((w.resume view g signal s.1).1, (w.resume view g signal s.1).2,
          s.2 ++ [.resumed g signal (w.resume view g signal s.1).1]) := rfl
    rw [advance, hresume] at h ⊢
    generalize w.resume view g signal s.1 = went at h ⊢
    obtain ⟨response, outer⟩ := went
    cases response with
    | yielded v => cases h
    | returned v =>
      dsimp only at h ⊢
      split at h
      · cases h
      · rename_i hbelow
        simp only [hbelow, Bool.false_eq_true, if_false]
        exact ih _ _ h
    | raised e' =>
      have hhere : ∃ x ∈ s.2 ++ [Exchange.resumed g signal (.raised e')], x.raised? = some e' :=
        ⟨_, List.mem_append_right _ (List.mem_singleton_self _), rfl⟩
      dsimp only at h ⊢
      split at h
      · rename_i hfatal
        cases h
        simp only [hfatal, if_true]
        exact Or.inr hhere
      · rename_i hmild
        split at h
        · rename_i hbelow
          cases h
          simp only [hmild, hbelow, Bool.false_eq_true, if_false, if_true]
          exact Or.inr hhere
        · rename_i hbelow
          simp only [hmild, hbelow, Bool.false_eq_true, if_false]
          exact ih _ _ h

/-- An exception gives up a run at once only if it escaped a generator, or it has been raised
before. -/
theorem Exchange.raises_of_control {log : List Exchange} {e e' : Exn} {x : Exchange} (hx : x ∈ log)
    (raises : x.raised? = some e') (h : (Failure.exn e').control = .abort (.exn e)) :
    ∃ x ∈ log, x.raised? = some e := by
  cases (Failure.control_eq_abort h).1
  exact ⟨x, hx, raises⟩

/-- An exception of a task may be caught. -/
theorem Failure.control_exn_ne_abort {e : Exn} (h : e.kind.isOrdinary = true) (f : Failure) :
    (Failure.exn e).control ≠ .abort f := by
  rw [Failure.control_of_ordinary h]
  exact nofun

namespace Machine

variable {m : Machine (σ × List Exchange)} {t : Nat} {e : Exn}

/-- What a call raises was raised by the function, or was planned. -/
theorem produce_raised (w : World σ) (m : Machine (σ × List Exchange))
    {plan : CallPlan} {call : Call}
    {forked : Bool} (hmem : .planned call forked (.ok plan) ∈ m.outer.2)
    (h : (m.produce w.recorded plan call).1 = .error e) :
    ∃ x ∈ (m.produce w.recorded plan call).2.outer.2, x.raised? = some e := by
  unfold produce at h ⊢
  cases herr : plan.error with
  | some e' =>
    simp only [herr] at h ⊢
    cases h
    exact ⟨_, hmem, herr⟩
  | none =>
    simp only [herr] at h ⊢
    split at h
    · rename_i hinvoke
      simp only [hinvoke, if_true]
      have hanswer : (w.invoke m.view call m.outer.1).1 = .error e := h
      refine ⟨.invoked call (.error e), ?_, rfl⟩
      rw [← hanswer]
      exact List.mem_append_right _ (List.mem_singleton_self _)
    · cases h

theorem interpretCall_raised (w : World σ) (call : Call)
    (h : (m.interpretCall w.recorded t call).control = .abort (.exn e)) :
    ∃ x ∈ (m.interpretCall w.recorded t call).machine.outer.2, x.raised? = some e := by
  unfold interpretCall at h ⊢
  rw [plan_recorded] at h ⊢
  generalize w.plan m.view call false m.outer.1 = asked at h ⊢
  obtain ⟨answer, s⟩ := asked
  cases answer with
  | error f =>
    cases (Failure.control_eq_abort h).1
    exact ⟨_, List.mem_append_right _ (List.mem_singleton_self _), rfl⟩
  | ok plan =>
    dsimp only at h ⊢
    split at h
    · rename_i hnow
      have hraised := fun e => @produce_raised σ e w
        { m with outer := (s, m.outer.2 ++ [.planned call false (.ok plan)]) } plan call false
        (List.mem_append_right _ (List.mem_singleton_self _))
      rw [if_pos hnow]
      generalize Machine.produce _ _ plan call = made at h hraised ⊢
      obtain ⟨produced, m'⟩ := made
      cases produced with
      | error e' =>
        obtain ⟨x, hx, raises⟩ := hraised e' rfl
        exact Exchange.raises_of_control hx raises h
      | ok v =>
        dsimp only [Machine.produced] at h
        split at h <;> cases h
    · cases h

theorem interpretFork_raised (w : World σ) (call : Call) (detached : Bool)
    (h : (m.interpretFork w.recorded t call detached).control = .abort (.exn e)) :
    ∃ x ∈ (m.interpretFork w.recorded t call detached).machine.outer.2, x.raised? = some e := by
  unfold interpretFork at h ⊢
  rw [plan_recorded] at h ⊢
  generalize w.plan m.view call true m.outer.1 = asked at h ⊢
  obtain ⟨answer, s⟩ := asked
  cases answer with
  | error f =>
    cases (Failure.control_eq_abort h).1
    exact ⟨_, List.mem_append_right _ (List.mem_singleton_self _), rfl⟩
  | ok plan =>
    dsimp only at h
    split at h <;> cases h

theorem interpretExternal_raised (w : World σ) (effect : Effect) (b : Bool)
    (h : (m.interpretExternal w.recorded t effect b).control = .abort (.exn e)) :
    ∃ x ∈ (m.interpretExternal w.recorded t effect b).machine.outer.2, x.raised? = some e := by
  unfold interpretExternal at h ⊢
  have hhandler : w.recorded.handler? effect = (w.handler? effect).map fun handler view context s =>
      ((handler view context s.1).1, (handler view context s.1).2,
        s.2 ++ [.handled effect context (handler view context s.1).1]) := rfl
  rw [hhandler] at h ⊢
  cases hreact : w.handler? effect with
  | none => simp only [hreact, Option.map_none] at h; cases h
  | some react =>
    simp only [hreact, Option.map_some] at h ⊢
    generalize react m.view _ m.outer.1 = answer at h ⊢
    obtain ⟨reaction, s⟩ := answer
    cases reaction with
    | error f =>
      cases (Failure.control_eq_abort h).1
      exact ⟨_, List.mem_append_right _ (List.mem_singleton_self _), rfl⟩
    | ok reaction =>
      cases reaction with
      | advance v => cases h
      | defer v wait name => cases h
      | invalid v => exact (Outcome.report_ne_exn _ v _ e h).elim

/-- Composites that are concluded raise what a task has failed of. -/
theorem continueComposite_ne_abort (m : Machine σ) (k : Composite)
    (ordinary : ∀ i u e, m.registry.get? i = some u → u.error = some e →
      e.kind.isOrdinary = true) (f : Failure) :
    (m.continueComposite k).control ≠ .abort f := by
  unfold continueComposite
  split
  · rw [concludeComposite_eq]
    split
    · rename_i e hfirst
      obtain ⟨a, _, u, hu, he⟩ := firstError?_eq_some hfirst
      exact Failure.control_exn_ne_abort (ordinary a u e hu he) f
    · dsimp only
      split
      · exact nofun
      · split <;> exact nofun
  · exact nofun

theorem interpretEffect_raised (w : World σ) (effect : Effect) (b : Bool)
    (ordinary : ∀ i u e, m.registry.get? i = some u → u.error = some e → e.kind.isOrdinary = true)
    (h : (m.interpretEffect w.recorded t effect b).control = .abort (.exn e)) :
    ∃ x ∈ (m.interpretEffect w.recorded t effect b).machine.outer.2, x.raised? = some e := by
  unfold interpretEffect at h ⊢
  split at h
  · exact interpretCall_raised w _ h
  · exact interpretFork_raised w _ _ h
  · unfold interpretJoin at h
    split at h
    · exact (Failure.control_exn_ne_abort (e := m.unknownTask _) rfl _ h).elim
    · dsimp only at h
      split at h <;> cases h
  · exact (m.continueComposite_ne_abort _ ordinary _ h).elim
  · exact (m.continueComposite_ne_abort _ ordinary _ h).elim
  · unfold interpretCancel at h
    split at h
    · exact (Failure.control_exn_ne_abort (e := m.unknownTask _) rfl _ h).elim
    · cases h
  · cases h
  · unfold interpretCancelled at h
    split at h <;> cases h
  · cases h
  · exact interpretExternal_raised w _ b h

theorem interpret_raised (w : World σ) (o : RunOptions) (effect : Value) (b : Bool)
    (ordinary : ∀ i u e, m.registry.get? i = some u → u.error = some e → e.kind.isOrdinary = true)
    (h : (m.interpret w.recorded o t effect b).control = .abort (.exn e)) :
    ∃ x ∈ (m.interpret w.recorded o t effect b).machine.outer.2, x.raised? = some e := by
  rcases Nat.lt_or_ge m.steps o.stepLimit with hlt | hle
  · unfold interpret at h ⊢
    rw [m.tick_of_lt hlt] at h ⊢
    dsimp only at h ⊢
    split at h
    · cases h
    · exact interpretEffect_raised (m := m.counted) w _ b ordinary h
    · exact (Outcome.report_ne_exn _ _ _ e h).elim
  · obtain ⟨f, heq, ⟨_, dump, rfl⟩ | ⟨_, rfl⟩⟩ := m.tick_of_le hle <;>
      (unfold interpret at h; rw [heq] at h; cases h)

end Machine

/-- Where nothing is asked of the world a run is given up over a report that cannot be written, and
over no other exception. -/
theorem Turn.unwritten {c c' : Config σ} (turn : Turn o c c') (ordinary : c.Ordinary)
    (hloop : c.control = .done → ∀ root below, c.stack ≠ .loop root :: below)
    (hcontrol : match c.control with
      | .done | .runTask _ | .complete .. | .fail .. | .propagate .. | .bubble _ => True
      | _ => False) {e : Exn} (h : c'.control = .abort (.exn e)) : c'.Unwritten := by
  cases turn with
  | balks stack _ => exact Config.unwritten_abort ..
  | condemns below rest first =>
    obtain ⟨a, _, u, hu, he⟩ := Machine.firstError?_eq_some first
    exact (Failure.control_exn_ne_abort (ordinary.errors a u _ hu he) _ h).elim
  | rethrows below task error _ =>
    exact (Failure.control_exn_ne_abort (ordinary.errors _ _ _ task error) _ h).elim
  | stops root f => exact (hloop rfl root [] rfl).elim
  | runs stack t leads =>
    obtain rfl | ⟨v, rfl⟩ | ⟨v, rfl⟩ | rfl := leads <;> cases h
  | climbs stack e' heeds leads =>
    subst leads
    dsimp only at h
    split at h <;> cases h
  | picks below t frames leads => obtain rfl | rfl := leads <;> cases h
  | yields resumes | returns resumes | escapes resumes | dies resumes =>
    cases resumes <;> exact hcontrol.elim
  | refuses | starts | unwinds => exact hcontrol.elim
  | _ => cases h

namespace Config

variable {m : Machine (σ × List Exchange)} {stack : List Frame} {t : Nat} {e : Exn}

/-- What gives up a run in the middle of a coroutine escaped it. -/
theorem withCoroutine_raised {go : Coroutine → σ × List Exchange →
    Progress × Coroutine × (σ × List Exchange)}
    (hgo : ∀ c s, (go c s).1 = .raised e → e.kind.isOrdinary = true ∨
      ∃ x ∈ (go c s).2.2.2, x.raised? = some e)
    (h : (withCoroutine m stack t go).control = .abort (.exn e)) :
    (withCoroutine m stack t go).Sourced e := by
  unfold withCoroutine Sourced at *
  cases hco : (m.get? t).bind (·.coroutine) with
  | none => simp only [hco] at h; cases h
  | some c =>
    simp only [hco] at h ⊢
    have hraised := hgo c m.outer
    generalize go c m.outer = went at h hraised ⊢
    obtain ⟨progress, c', s⟩ := went
    cases progress with
    | suspended effect => cases h
    | finished v => cases h
    | raised e' =>
      dsimp only [afterProgress] at h ⊢
      split at h
      · cases h
      · rename_i hkind
        cases h
        rw [if_neg hkind]
        exact (hraised rfl).resolve_left hkind

theorem resumeSeeing_raised (w : World σ) (view : View) (signal : Signal)
    (h : (resumeSeeing w.recorded view m stack t signal).control = .abort (.exn e)) :
    (resumeSeeing w.recorded view m stack t signal).Sourced e := by
  refine withCoroutine_raised (fun c s hraised => ?_) h
  refine (Coroutine.advance_raised w view _ _ c.frames s hraised).imp_left ?_
  rintro rfl
  rfl

theorem enter_raised (w : World σ) (g : Nat)
    (h : (enter w.recorded m stack t g).control = .abort (.exn e)) :
    (enter w.recorded m stack t g).Sourced e := by
  refine withCoroutine_raised (fun c s hraised => ?_) h
  refine (Coroutine.advance_raised w m.view _ _ (g :: c.frames) s hraised).imp_left ?_
  rintro rfl
  rfl

theorem deliver_raised (w : World σ) (o : RunOptions) (a : Answer)
    (h : (deliver w.recorded o m a stack).control = .abort (.exn e)) :
    (deliver w.recorded o m a stack).Sourced e := by
  unfold deliver at h ⊢
  split at h
  · cases a with
    | advance v => exact resumeSeeing_raised w _ _ h
    | enter g => exact enter_raised w g h
    | block i => cases h
  · cases a <;> cases h
  · cases h

theorem catchException_raised (w : World σ) (e' : Exn)
    (h : (catchException w.recorded m e' stack).control = .abort (.exn e)) :
    (catchException w.recorded m e' stack).Sourced e := by
  unfold catchException at h ⊢
  split at h
  · exact resumeSeeing_raised w _ _ h
  all_goals cases h

theorem afterEntry_raised (o : RunOptions) {produced : Except Exn Value}
    (hraised : ∀ e, produced = .error e → ∃ x ∈ m.outer.2, x.raised? = some e)
    (h : (afterEntry o m stack t produced).control = .abort (.exn e)) :
    (afterEntry o m stack t produced).Sourced e := by
  unfold afterEntry at h ⊢
  split at h
  · cases h
  · cases h
  · rename_i e'
    split at h
    · cases h
    · rename_i hkind
      cases h
      rw [if_neg hkind]
      exact hraised e rfl

theorem start_raised (w : World σ) (o : RunOptions) (planned : m.Planned)
    (h : (start w.recorded o m stack t).control = .abort (.exn e)) :
    (start w.recorded o m stack t).Sourced e := by
  cases hu : m.get? t with
  | none => simp only [start, hu] at h; cases h
  | some u =>
    cases he : u.entry with
    | none => simp only [start, hu, he] at h; cases h
    | some entry =>
      rw [start_eq w.recorded o hu he] at h ⊢
      cases entry with
      | constant v => exact afterEntry_raised o (fun e he => by cases he) h
      | planned plan call =>
        obtain ⟨forked, hmem⟩ := planned t u plan call hu he
        exact afterEntry_raised o (fun e => Machine.produce_raised w
          (m.modify t fun task => { task with entry := none }) hmem) h

/-- **An exception that gives up a run was raised by the world**, or takes the place of a report. -/
theorem sourced_step (w : World σ) (o : RunOptions)
    {c : Config (σ × List Exchange)} (hc : c.Sound begun)
    (ordinary : c.Ordinary) (planned : c.machine.Planned)
    (hgoing : ∀ f, c.control ≠ .abort f) {e : Exn}
    (h : (c.step w.recorded o).control = .abort (.exn e)) :
    (c.step w.recorded o).Unwritten ∨
      (c.step w.recorded o).Sourced e ∧ e.kind.isOrdinary = false := by
  have turn := turn_step w.recorded o hc
  have kind (hb : ∀ ids, c.control ≠ .bubble ids) (hd : c.control ≠ .done) :
      e.kind.isOrdinary = false := by
    cases grounds_of_step w.recorded o hgoing h with
    | fatal kind => exact kind
    | unwritten between =>
      rcases between with ⟨ids, hids⟩ | ⟨hdone, _⟩
      · exact (hb ids hids).elim
      · exact (hd hdone).elim
  obtain ⟨m, stack, control⟩ := c
  cases control with
  | raised e' => exact .inr ⟨catchException_raised w e' h, kind nofun nofun⟩
  | answer a => exact .inr ⟨deliver_raised w o a h, kind nofun nofun⟩
  | drive t s =>
    exact .inr
      ⟨resumeSeeing_raised (m := m.modify t fun task => { task with running := true }) w _ s h,
      kind nofun nofun⟩
  | interpret t effect b =>
    exact .inr ⟨Machine.interpret_raised w o effect b ordinary.errors h, kind nofun nofun⟩
  | start t => exact .inr ⟨start_raised w o planned h, kind nofun nofun⟩
  | abort f => exact (hgoing f rfl).elim
  | done =>
    by_cases hloop : ∃ root below, stack = .loop root :: below
    · obtain ⟨root, below, rfl⟩ := hloop
      exact .inl (continueLoop_unwritten h)
    · exact .inl
        (turn.unwritten ordinary (fun _ root below hs => hloop ⟨root, below, hs⟩) trivial h)
  | runTask | complete | fail | propagate | bubble =>
    exact .inl (turn.unwritten ordinary nofun trivial h)

/-- What exceptions come from, as far as a run has got. -/
structure Traced (c : Config (σ × List Exchange)) : Prop where
  planned : c.machine.Planned
  blamed : ∀ e, c.control = .abort (.exn e) →
    c.Unwritten ∨ c.Sourced e ∧ e.kind.isOrdinary = false

theorem Sourced.step (w : World σ) (o : RunOptions) {c : Config (σ × List Exchange)}
    {e : Exn} (h : c.Sourced e) :
    (c.step w.recorded o).Sourced e := by
  obtain ⟨x, hx, raises⟩ := h
  exact ⟨x, (record_step w o c).subset hx, raises⟩

theorem traced_step (w : World σ) (o : RunOptions)
    {c : Config (σ × List Exchange)} (hc : c.Sound begun)
    (ordinary : c.Ordinary) (h : c.Traced) : (c.step w.recorded o).Traced := by
  refine ⟨planned_step w o h.planned, fun e he => ?_⟩
  by_cases hgoing : ∀ f, c.control ≠ .abort f
  · exact sourced_step w o hc ordinary h.planned hgoing he
  · obtain ⟨f, hf⟩ := not_forall_not.mp hgoing
    have hsame : (c.step w.recorded o).control = .abort f := by
      obtain ⟨m, stack, control⟩ := c
      obtain rfl : control = .abort f := hf
      show (unwind m f stack).control = .abort f
      unfold unwind
      split <;> rfl
    rw [hsame, Control.abort.injEq] at he
    subst he
    exact (h.blamed e hf).imp (·.step w.recorded o) (.imp_left (·.step w o))

theorem traced_run (w : World σ) (o : RunOptions)
    {c : Config (σ × List Exchange)} (hc : c.Sound begun)
    (ordinary : c.Ordinary) (h : c.Traced) (n : Nat) : (run w.recorded o n c).Traced := by
  induction n with
  | zero => exact h
  | succ n ih =>
    obtain ⟨_, _, hs⟩ := sound_run w.recorded o hc n
    rw [run_succ]
    split
    · exact ih
    · exact traced_step w o hs (ordinary_run w.recorded o hc ordinary n) ih

theorem traced_launched (outer : σ) (name : String) (g : Nat) :
    (launched (outer, ([] : List Exchange)) name g).Traced := by
  refine ⟨fun i u plan call hu he => ?_, nofun⟩
  rcases Registry.get?_create_cases
      (fun _ hp => by cases hp) (show (Registry.empty.create name .now none
      false (some (.ofGenerator g)) none).1.get? i = some u from hu) with ⟨_, rfl⟩ | ⟨hlt, _⟩
  · cases he
  · exact absurd hlt (Nat.not_lt_zero i)

end Config

end Rehearsal
