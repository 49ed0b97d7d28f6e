import Rehearsal.Bench.World
import Rehearsal.Proofs.Engine.GivingUp

/-!
# The bench gives no verdict on a run

Planners and handlers of the bench refuse what nothing expects and pass on exceptions of the script.
They never answer with a report that only the scheduler makes, so the world of every setup is
candid.
-/
namespace Rehearsal

/-- Where a failure shows too much, no failure of the bench takes its place. -/
theorem reporting_eq_harness {long : Bool} {f : Failure} {h : HarnessError}
    (he : reporting long f = .harness h) : f = .harness h := by
  unfold reporting at he
  split at he
  · cases he
  · exact he

/-- Whatever the bench is, the computation does not fail with a verdict on the run. -/
def Act.Candid {α : Type} (x : Act α) : Prop :=
  ∀ s h, (x.run s).1 = .error (.harness h) → h.isVerdict = false

namespace Act.Candid

variable {α β : Type}

theorem pure (a : α) : Candid (Pure.pure a : Act α) := fun _ _ h => by cases h

theorem run_bind (x : Act α) (f : α → Act β) (s : Bench) :
    (x >>= f).run s = match x.run s with
      | (.ok a, s) => (f a).run s
      | (.error e, s) => (.error e, s) := by
  cases hr : x.run s with
  | mk r s' =>
    have hx : (x : StateT Bench Id (Except Failure α)) s = (r, s') := hr
    show (ExceptT.bind x f : StateT Bench Id (Except Failure β)) s = _
    cases r with
    | ok a => simp only [ExceptT.bind, ExceptT.mk, Bind.bind, StateT.bind, hx]; rfl
    | error e => simp only [ExceptT.bind, ExceptT.mk, Bind.bind, StateT.bind, hx]; rfl

theorem bind {x : Act α} {f : α → Act β} (hx : x.Candid) (hf : ∀ a, (f a).Candid) :
    Candid (x >>= f) := by
  intro s h he
  rw [run_bind] at he
  cases hr : x.run s with
  | mk r s' =>
    rw [hr] at he
    cases r with
    | ok a => exact hf a s' h he
    | error e =>
      cases he
      exact hx s h (by rw [hr])

theorem get : Candid (MonadState.get : Act Bench) := fun _ _ h => by cases h

theorem modify (f : Bench → Bench) : Candid (MonadState.modifyGet fun s => ((), f s) : Act Unit) :=
  fun _ _ h => by cases h

theorem fail {f : Failure} (hf : ∀ h, f = .harness h → h.isVerdict = false) :
    Candid (MonadExcept.throw f : Act α) := fun _ h he => by
  cases he
  exact hf h rfl

theorem refuse {h : HarnessError} (hh : h.isVerdict = false) : Candid (Act.refuse h : Act α) := by
  refine fail ?_
  rintro _ ⟨⟩
  exact hh

theorem report {long : Bool} {h : HarnessError} (hh : h.isVerdict = false) :
    Candid (MonadExcept.throw (reporting long (.harness h)) : Act α) := by
  refine fail fun h' he => ?_
  cases reporting_eq_harness he
  exact hh

theorem attempt (x : Script.Eval α) : (Act.attempt x).Candid := fun _ _ h => by cases h

theorem ofScript (x : Script.Eval α) : (Act.ofScript x).Candid := by
  refine bind (attempt x) fun r => ?_
  cases r with
  | ok a => exact pure a
  | error e => exact fail nofun

end Act.Candid

def Script.Eval.Yields {α : Type} (x : Script.Eval α) (P : α → Prop) : Prop :=
  ∀ s a, (x.run s).1 = .ok a → P a

namespace Script.Eval.Yields

variable {α β : Type}

theorem pure {P : α → Prop} {a : α} (h : P a) : Yields (Pure.pure a : Script.Eval α) P :=
  fun _ _ he => by
    cases he
    exact h

theorem bind_of {P : α → Prop} {Q : β → Prop} {x : Script.Eval α}
    {f : α → Script.Eval β} (hx : x.Yields P)
    (hf : ∀ a, P a → (f a).Yields Q) : Yields (x >>= f) Q := by
  intro s b he
  cases hr : x.run s with
  | mk r s' =>
    have hrun : (x : StateT Script.Memory Id (Except Exn α)) s = (r, s') := hr
    replace he : ((ExceptT.bind x f : StateT Script.Memory Id (Except Exn β)) s).1 = .ok b := he
    cases r with
    | ok a =>
      simp only [ExceptT.bind, ExceptT.mk, Bind.bind, StateT.bind, hrun] at he
      exact hf a (hx s a (by rw [hr])) s' b he
    | error e =>
      simp only [ExceptT.bind, ExceptT.mk, Bind.bind, StateT.bind, hrun] at he
      cases he

theorem bind {P : β → Prop} (x : Script.Eval α) {f : α → Script.Eval β} (hf : ∀ a, (f a).Yields P) :
    Yields (x >>= f) P :=
  bind_of (P := fun _ => True) (fun _ _ _ => trivial) fun a _ => hf a

end Script.Eval.Yields

/-- What the bench makes of a result of the script has to be candid for such results only. -/
theorem Act.Candid.ofScript_bind {α β : Type} {x : Script.Eval α} {P : α → Prop} {f : α → Act β}
    (hx : x.Yields P) (hf : ∀ a, P a → (f a).Candid) : (Act.ofScript x >>= f).Candid := by
  intro s h he
  rw [run_bind] at he
  cases hr : x.run s.memory with
  | mk r memory =>
    have hattempt : (Act.attempt x).run s = (.ok r, { s with memory }) := by
      show (Except.ok (x.run s.memory).1, { s with memory := (x.run s.memory).2 }) = _
      rw [hr]
    unfold Act.ofScript at he
    rw [run_bind, hattempt] at he
    cases r with
    | ok a => exact hf a (hx s.memory a (by rw [hr])) _ h he
    | error e => cases he

/-! ### Ledgers -/

/-- A call that its expectations do not accept is refused as unmatched. -/
theorem CallLedger.record_yields (holds : Value → Value → Script.Eval Bool) (c : CallLedger)
    (name : String) (args : List Value) (step : Option Nat) :
    (c.record holds name args step).Yields fun r =>
      ∀ h, r = .error (.harness h) → h.isVerdict = false := by
  unfold CallLedger.record
  refine .bind _ fun found => ?_
  split
  · exact .pure nofun
  · refine .pure fun h he => ?_
    cases reporting_eq_harness (Except.error.inj he)
    rfl

/-- An action that strict expectations do not accept is refused as unmatched. -/
theorem ActionLedger.record_yields (holds : Value → Value → Script.Eval Bool) (l : ActionLedger)
    (d : Dispatched) (step : Option Nat) :
    (l.record holds d step).Yields fun r =>
      ∀ h, r = .error (.harness h) → h.isVerdict = false := by
  unfold ActionLedger.record
  refine .bind _ fun found => ?_
  split
  · exact .pure nofun
  · exact .pure nofun
  · refine .pure fun h he => ?_
    unfold ActionLedger.leaveOver at he
    dsimp only at he
    split at he
    · cases reporting_eq_harness (Except.error.inj he)
      rfl
    · split at he
      · generalize Value.checkKey _ = checked at he
        cases checked <;> cases he
      · cases he

/-! ### Planning -/

namespace Planner

theorem follow_candid (name : String) (isStandIn : Bool) (e : CallExpectation) :
    (follow name isStandIn e).Candid := by
  unfold follow
  split
  · rename_i thrown _
    refine .bind ?_ fun _ => .pure _
    unfold exception
    split
    · exact .pure _
    · exact .ofScript _
  · split
    · split
      · exact .refuse rfl
      · exact .pure _
    · exact .pure _

theorem unconfigured_candid (call : Call) (refused : Bool) (step : Nat) :
    (unconfigured call refused step).Candid := by
  unfold unconfigured
  split
  · exact .report rfl
  · split
    · exact .refuse rfl
    · exact .pure _

theorem plan_candid (setup : Setup) (view : View) (call : Call) (forked : Bool) :
    (plan setup view call forked).Candid := by
  unfold plan
  split
  · exact .pure _
  · exact .pure _
  · dsimp only
    unfold expected
    refine .bind .get fun s => ?_
    split
    · refine .ofScript_bind (CallLedger.record_yields _ _ _ _ _) fun r hr => ?_
      split
      · exact .fail fun h he => hr _ (he ▸ rfl)
      · exact .bind (.modify _) fun _ => follow_candid _ _ _
    · exact unconfigured_candid _ _ _

end Planner

/-! ### Handling -/

namespace Handling

theorem dispatch_candid (setup : Setup) (view : View) (step : Nat) (action : Mapping)
    (object : Value) : (dispatch setup view step action object).Candid := by
  unfold dispatch
  refine .bind (.modify _) fun _ => .bind .get fun s =>
    .ofScript_bind (ActionLedger.record_yields _ _ _ _) fun r hr => ?_
  split
  · exact .fail fun h he => hr _ (he ▸ rfl)
  · exact .bind (.modify _) fun _ => .pure _

theorem serve_candid (setup : Setup) (view : View) (context : Context) (pattern : Value) :
    (serve setup view context pattern).Candid := by
  unfold serve
  refine .bind .get fun s => .bind (.ofScript _) fun found => ?_
  split
  · exact .fail nofun
  · exact .bind (.modify _) fun _ => .pure _
  · split
    · exact .pure _
    · exact .report rfl

theorem look_candid (setup : Setup) (view : View) (pattern : Value) :
    (look setup view pattern).Candid := by
  unfold look
  refine .bind .get fun s => .bind (.ofScript _) fun found => ?_
  split
  · exact .fail nofun
  · exact .pure _

theorem evaluate_candid (setup : Setup) (view : View) (step : Nat) (selector : Value)
    (args : List Value) : (evaluate setup view step selector args).Candid := by
  unfold evaluate
  refine .bind (.attempt _) fun r => ?_
  split
  · split
    · exact .fail nofun
    · exact .report rfl
  · split
    · exact .pure _
    · rename_i h hs
      refine .refuse ?_
      unfold Selection.settle at hs
      split at hs
      · split at hs <;> cases hs
        rfl
      · split at hs <;> cases hs
        rfl
      · cases hs

theorem react_candid (setup : Setup) (h : Handling) (view : View) (context : Context) (e : Effect) :
    (react setup h view context e).Candid := by
  unfold react
  split
  · exact dispatch_candid _ _ _ _ _
  · exact serve_candid _ _ _ _
  · exact look_candid _ _ _
  · exact evaluate_candid _ _ _ _ _
  · exact .pure _
  · exact .pure _
  · exact .bind (.ofScript _) fun _ => .pure _
  · exact .bind (.ofScript _) fun _ => .pure _
  · exact .pure _

end Handling

/-- The world of a setup gives no verdict on a run. -/
theorem Setup.world_candid (setup : Setup) : setup.world.Candid where
  plan := by
    intro view call forked s h he
    exact Planner.plan_candid setup view call forked s h he
  handler := by
    intro effect react view context s h hr he
    obtain ⟨handling, _, rfl⟩ := Option.map_eq_some_iff.mp hr
    exact Handling.react_candid setup handling view context effect s h he

end Rehearsal
