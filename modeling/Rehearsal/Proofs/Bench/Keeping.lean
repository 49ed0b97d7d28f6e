import Rehearsal.Proofs.Bench.Candor

/-!
# What acts leave as it is

Whatever is done to the bench is done to all of it, but a handler has to do with one part of it
only. The script changes nothing but its memory, a dispatched action nothing but the ledger of
actions, and a take nothing but the queue.
-/
namespace Rehearsal

open Script

namespace Act

variable {α β γ : Type} {shown : Bench → γ}

theorem run_get (s : Bench) : (MonadState.get : Act Bench).run s = (.ok s, s) := rfl

theorem run_modify (f : Bench → Bench) (s : Bench) :
    (modify f : Act Unit).run s = (.ok (), f s) := rfl

/-- A computation of the script changes nothing but the memory, also where it raises. -/
theorem run_ofScript (x : Eval α) (s : Bench) :
    (Act.ofScript x).run s =
      ((x.run s.memory).1.mapError .exn, { s with memory := (x.run s.memory).2 }) := by
  have hattempt :
    (Act.attempt x).run s = (.ok (x.run s.memory).1, { s with memory := (x.run s.memory).2 }) := rfl
  unfold Act.ofScript
  rw [Candid.run_bind, hattempt]
  generalize x.run s.memory = went
  obtain ⟨r, memory⟩ := went
  cases r <;> rfl

def Keeps (shown : Bench → γ) (x : Act α) : Prop := ∀ s, shown (x.run s).2 = shown s

namespace Keeps

theorem pure (a : α) : Keeps shown (Pure.pure a : Act α) := fun _ => rfl

theorem throw (f : Failure) : Keeps shown (MonadExcept.throw f : Act α) := fun _ => rfl

theorem get : Keeps shown (MonadState.get : Act Bench) := fun _ => rfl

theorem modify {f : Bench → Bench} (h : ∀ s, shown (f s) = shown s) :
    Keeps shown (MonadState.modifyGet fun s => ((), f s) : Act Unit) := h

theorem bind {x : Act α} {f : α → Act β} (hx : x.Keeps shown) (hf : ∀ a, (f a).Keeps shown) :
    Keeps shown (x >>= f) := by
  intro s
  have hfirst := hx s
  rw [Candid.run_bind]
  split
  · rename_i a s' hrun
    rw [hrun] at hfirst
    exact (hf a s').trans hfirst
  · rename_i hrun
    rwa [hrun] at hfirst

variable (memory : ∀ (s : Bench) (memory : Memory), shown { s with memory } = shown s)
include memory

theorem attempt (x : Eval α) : Keeps shown (Act.attempt x) := fun s => memory s (x.run s.memory).2

theorem ofScript (x : Eval α) : Keeps shown (Act.ofScript x) := fun s => by
  rw [run_ofScript]
  exact memory s _

end Keeps

end Act

/-! ### Planning -/

section Planning

variable {γ : Type} {shown : Bench → γ}
    (memory : ∀ (s : Bench) (memory : Memory), shown { s with memory } = shown s)
include memory

theorem Planner.follow_keeps (name : String) (isStandIn : Bool) (e : CallExpectation) :
    (follow name isStandIn e).Keeps shown := by
  unfold follow
  split
  · refine .bind ?_ fun _ => .pure _
    unfold exception
    split
    · exact .pure _
    · exact .ofScript memory _
  · split
    · split
      · exact .throw _
      · exact .pure _
    · exact .pure _

omit memory in
theorem Planner.unconfigured_keeps (call : Call) (refused : Bool) (step : Nat) :
    (unconfigured call refused step).Keeps shown := by
  unfold unconfigured
  split
  · exact .throw _
  · split
    · exact .throw _
    · exact .pure _

/-- A planned call changes nothing but the ledger of calls. -/
theorem Planner.plan_keeps
    (called : ∀ (s : Bench) (calls : CallLedger), shown { s with calls } = shown s)
    (setup : Setup) (view : View) (call : Call) (forked : Bool) :
    (plan setup view call forked).Keeps shown := by
  unfold plan
  split
  · exact .pure _
  · exact .pure _
  · dsimp only
    unfold expected
    refine .bind .get fun s => ?_
    split
    · refine .bind (.ofScript memory _) fun r => ?_
      split
      · exact .throw _
      · exact .bind (.modify fun s => called s _) fun _ => follow_keeps memory _ _ _
    · exact unconfigured_keeps _ _ _

/-! ### Handling -/

/-- **Only a dispatched action changes the ledger of actions, and only a take changes the queue.**
-/
theorem Handling.react_keeps (setup : Setup) (h : Handling) (view : View)
    (context : Context) {e : Effect}
    (dispatched : ∀ action object, h = .put → e = .put action object →
      ∀ s actions dispatched, shown { s with actions, dispatched } = shown s)
    (taken : ∀ pattern, h = .take → e = .take pattern →
      ∀ s queue, shown { s with queue } = shown s) :
    (react setup h view context e).Keeps shown := by
  unfold react
  split
  · rename_i action object
    have hput := dispatched action object rfl rfl
    unfold dispatch
    refine .bind (.modify fun s => hput s s.actions _) fun _ => .bind .get fun s =>
      .bind (.ofScript memory _) fun r => ?_
    split
    · exact .throw _
    · exact .bind (.modify fun s => hput s _ s.dispatched) fun _ => .pure _
  · rename_i pattern
    unfold serve
    refine .bind .get fun s => .bind (.ofScript memory _) fun found => ?_
    split
    · exact .throw _
    · exact .bind (.modify fun s => taken pattern rfl rfl s _) fun _ => .pure _
    · split
      · exact .pure _
      · exact .throw _
  · unfold look
    refine .bind .get fun s => .bind (.ofScript memory _) fun found => ?_
    split
    · exact .throw _
    · exact .pure _
  · unfold evaluate
    refine .bind (.attempt memory _) fun r => ?_
    split
    · split
      · exact .throw _
      · exact .throw _
    · split
      · exact .pure _
      · exact .throw _
  · exact .pure _
  · exact .pure _
  · exact .bind (.ofScript memory _) fun _ => .pure _
  · exact .bind (.ofScript memory _) fun _ => .pure _
  · exact .pure _

end Planning

end Rehearsal
