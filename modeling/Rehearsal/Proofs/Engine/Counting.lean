import Rehearsal.Proofs.Engine.Composites

/-!
# The count of steps

Only an interpretation and a turn of the main loop are counted as steps. Each counts one; whatever
else goes on leaves the count alone.
-/
namespace Rehearsal

variable {σ : Type}

namespace Machine

variable (m : Machine σ) (o : RunOptions) (t : Nat)

@[simp] theorem steps_modify (f : Task → Task) : (m.modify t f).steps = m.steps := rfl

@[simp] theorem steps_noteInterrupt (u : Task) : (m.noteInterrupt o u).steps = m.steps := by
  unfold noteInterrupt
  split <;> rfl

@[simp] theorem steps_suspend (i : Interruption) : (m.suspend o t i).steps = m.steps := by
  unfold suspend
  dsimp only
  split <;> simp

@[simp] theorem steps_finalize (v : Value) : (m.finalize t v).steps = m.steps := rfl

@[simp] theorem steps_holdForChildren (held : Pending) :
    (m.holdForChildren o t held).2.steps = m.steps := by
  unfold holdForChildren
  split
  · rfl
  · dsimp only
    split <;> simp

@[simp] theorem steps_wrapUp (held : Pending) (v : Value) :
    (m.wrapUp o t held v).steps = m.steps := by
  have h := m.steps_holdForChildren o t held
  unfold wrapUp
  generalize m.holdForChildren o t held = result at h
  obtain ⟨ok, m'⟩ := result
  cases ok
  · exact h
  · exact h

@[simp] theorem steps_complete (v : Value) : (m.complete o t v).steps = m.steps :=
  m.steps_wrapUp o t (.returned v) v

theorem steps_fail {m m' : Machine σ} {e : Exn} (h : m.fail o t e = some m') :
    m'.steps = m.steps := by
  unfold fail at h
  split at h
  · cases h
  · rename_i u _
    split at h
    · cases h
    · have hs := steps_holdForChildren (m.condemn t u.children e) o t (.failed e)
      unfold condemn modify at *
      dsimp only at h
      generalize holdForChildren o _ t (.failed e) = result at h hs
      obtain ⟨ok, m₁⟩ := result
      cases ok <;> cases h <;> exact hs

@[simp] theorem steps_produce (w : World σ) (plan : CallPlan) (call : Call) :
    (m.produce w plan call).2.steps = m.steps := by
  unfold produce
  split
  · rfl
  · split <;> rfl

/-! ### Interpretation -/

@[simp] theorem steps_produced (v : Value) : (m.produced v).machine.steps = m.steps := by
  unfold produced
  split <;> rfl

@[simp] theorem steps_interpretCall (w : World σ) (call : Call) :
    (m.interpretCall w t call).machine.steps = m.steps := by
  unfold interpretCall
  split
  · rfl
  · dsimp only
    split
    · split
      · rename_i h
        exact (congrArg (fun x => x.2.steps) h).symm.trans (steps_produce ..)
      · rename_i h
        rw [steps_produced]
        exact (congrArg (fun x => x.2.steps) h).symm.trans (steps_produce ..)
    · rfl

@[simp] theorem steps_interpretFork (w : World σ) (call : Call) (detached : Bool) :
    (m.interpretFork w t call detached).machine.steps = m.steps := by
  unfold interpretFork
  split
  · rfl
  · dsimp only
    split <;> rfl

@[simp] theorem steps_interpretJoin (targets : Targets) :
    (m.interpretJoin targets).machine.steps = m.steps := by
  unfold interpretJoin
  split
  · rfl
  · dsimp only
    split <;> rfl

@[simp] theorem steps_interpretCancel (targets : Targets) :
    (m.interpretCancel targets).machine.steps = m.steps := by
  unfold interpretCancel
  split <;> rfl

@[simp] theorem steps_interpretCancelled : (m.interpretCancelled t).machine.steps = m.steps := by
  unfold interpretCancelled
  split <;> rfl

@[simp] theorem steps_concludeComposite (k : Composite) :
    (m.concludeComposite k).machine.steps = m.steps := by
  rw [concludeComposite_eq]
  split
  · rfl
  · dsimp only
    split
    · rfl
    · split <;> rfl

@[simp] theorem steps_continueComposite (k : Composite) :
    (m.continueComposite k).machine.steps = m.steps := by
  unfold continueComposite
  split
  · exact m.steps_concludeComposite k
  · rfl

@[simp] theorem steps_interpretExternal (w : World σ) (e : Effect) (b : Bool) :
    (m.interpretExternal w t e b).machine.steps = m.steps := by
  unfold interpretExternal
  split
  · rfl
  · dsimp only
    split <;> rfl

@[simp] theorem steps_interpretEffect (w : World σ) (e : Effect) (b : Bool) :
    (m.interpretEffect w t e b).machine.steps = m.steps := by
  unfold interpretEffect
  split <;> first | rfl | simp [interpretComposite]

/-- An interpretation counts one step. -/
theorem steps_interpret (w : World σ) (effect : Value) (b : Bool) :
    (m.interpret w o t effect b).machine.steps = m.steps + 1 := by
  rcases m.interpret_cases w o t effect b with ⟨f, heq⟩ | ⟨g, _, heq⟩ | ⟨e, _, heq⟩
  · rw [heq]
    rfl
  · rw [heq]
    rfl
  · rw [heq, steps_interpretEffect]
    rfl

/-- An interpretation past the ceiling gives up the run, unless the report of that cannot be
written. -/
theorem interpret_past (w : World σ) (effect : Value) (b : Bool) (h : o.stepLimit ≤ m.steps)
    (short : m.registry.waitsLong = false) :
    ∃ dump, m.interpret w o t effect b =
      .abort m.counted (.stopped dump (m.steps + 1) .stepLimit) := by
  obtain ⟨f, htick, ⟨_, dump, rfl⟩ | ⟨long, _⟩⟩ := m.tick_of_le h
  · exact ⟨dump, by unfold interpret; rw [htick]; rfl⟩
  · rw [short] at long
    cases long

end Machine

namespace Config

variable (m : Machine σ) (stack : List Frame) (t : Nat)

/-! ### Everything else -/

theorem steps_withCoroutine (go : Coroutine → σ → Progress × Coroutine × σ) :
    (withCoroutine m stack t go).machine.steps = m.steps := by
  unfold withCoroutine
  split
  · rfl
  · dsimp only
    unfold afterProgress
    split
    · rfl
    · rfl
    · split <;> rfl

theorem steps_deliver (w : World σ) (o : RunOptions) (a : Answer) :
    (deliver w o m a stack).machine.steps = m.steps := by
  unfold deliver
  split
  · split
    · exact steps_withCoroutine ..
    · exact steps_withCoroutine ..
    · simp [halt]
  · dsimp only
    split <;> simp [halt]
  · rfl

theorem steps_catchException (w : World σ) (e : Exn) :
    (catchException w m e stack).machine.steps = m.steps := by
  unfold catchException
  split
  · exact steps_withCoroutine ..
  all_goals rfl

theorem steps_unwind (f : Failure) : (unwind m f stack).machine.steps = m.steps := by
  unfold unwind
  split <;> rfl

theorem steps_start (w : World σ) (o : RunOptions) :
    (start w o m stack t).machine.steps = m.steps := by
  unfold start
  split
  · rfl
  · dsimp only
    split
    · simp [halt]
    · rename_i entry _
      cases entry with
      | constant v => cases v <;> simp [halt]
      | planned plan call =>
        have h := (m.modify t fun u => { u with entry := none }).steps_produce w plan call
        dsimp only
        generalize Machine.produce w _ plan call = made at h
        obtain ⟨produced, m'⟩ := made
        dsimp only at h ⊢
        split
        · exact h
        · simpa [halt] using h
        · split
          · exact (steps_handling ..).trans h
          · exact h

theorem steps_runTask : (runTask m stack t).machine.steps = m.steps := by
  unfold runTask
  split
  · rfl
  · split
    · rfl
    · rfl
    · dsimp only
      split
      · split <;> rfl
      · split <;> rfl

theorem steps_abandon (failed : Nat) : (abandon m t failed).2.steps = m.steps := by
  unfold abandon
  split
  · rfl
  · dsimp only
    split <;> rfl

theorem steps_propagate (o : RunOptions) (e : Exn) :
    (propagate o m stack t e).machine.steps = m.steps := by
  unfold propagate
  split
  · rfl
  · split
    · split <;> rfl
    · rename_i p _
      split
      · rfl
      · split
        · rfl
        · split
          · rfl
          · have h := steps_abandon m p t
            generalize abandon m p t = dropped at h
            obtain ⟨direct, m'⟩ := dropped
            dsimp only at h ⊢
            split
            · exact h
            · split <;> exact h

theorem steps_bubble (o : RunOptions) (finished : List Nat) :
    (bubble o m stack finished).machine.steps = m.steps := by
  rcases bubble_cases o m stack finished with ⟨_, heq⟩ | ⟨_, ⟨_, heq⟩ | ⟨_, heq⟩⟩
  all_goals exact congrArg (·.machine.steps) heq

theorem steps_continueRound (finished rest : List Nat) :
    (continueRound m stack finished rest).machine.steps = m.steps := by
  unfold continueRound
  split
  · rfl
  · dsimp only
    split
    · rfl
    · split
      · rfl
      · split
        · rfl
        · split
          · rfl
          · split
            · rfl
            · split <;> rfl

theorem steps_continueBatch (rest : List Nat) :
    (continueBatch m stack rest).machine.steps = m.steps := by
  unfold continueBatch
  split
  · rfl
  · split
    · split <;> rfl
    · rfl

theorem steps_afterFork (child : Nat) : (m.afterFork child).machine.steps = m.steps := by
  unfold Machine.afterFork
  split
  · split
    · split <;> rfl
    · rfl
  · rfl

/-- A turn of the main loop counts one step, unless it ends the run. -/
theorem steps_continueLoop {o : RunOptions} {root : Nat} (h : settled o m root = false) :
    (continueLoop o m root).machine.steps = m.steps + 1 := by
  rcases continueLoop_cases o m root with ⟨hend, _⟩ | ⟨_, ⟨_, heq⟩ | ⟨_, _, _, heq⟩⟩
  · rw [h] at hend
    cases hend
  · rw [heq]
    rfl
  · rw [heq]
    rfl

/-- **A step that is counted counts one, and the others count nothing.** -/
theorem steps_step_eq (w : World σ) (o : RunOptions) (c : Config σ) :
    (c.step w o).machine.steps = c.machine.steps + if c.ticks o then 1 else 0 := by
  obtain ⟨m, stack, control⟩ := c
  cases control with
  | done =>
    match stack with
    | [] => rfl
    | .driving _ :: _ => rfl
    | .member _ :: _ => rfl
    | .composite k :: _ => exact m.steps_continueComposite k
    | .forked child :: _ => exact steps_afterFork m child
    | .batch rest :: below => exact steps_continueBatch m below rest
    | .round finished rest :: below => exact steps_continueRound m below finished rest
    | .loop root :: below =>
      show (continueLoop o m root).machine.steps = m.steps + if !settled o m root then 1 else 0
      cases hs : settled o m root with
      | true => simp [continueLoop, hs, halt]
      | false => exact steps_continueLoop m hs
  | raised e => exact steps_catchException m stack w e
  | abort f => exact steps_unwind m stack f
  | answer a => exact steps_deliver m stack w o a
  | drive t s => exact steps_withCoroutine ..
  | interpret t effect b => exact m.steps_interpret o t w effect b
  | runTask t => exact steps_runTask m stack t
  | start t => exact steps_start m stack t w o
  | complete t v => exact m.steps_complete o t v
  | fail t e =>
    unfold step
    dsimp only
    split
    · rename_i h
      exact Machine.steps_fail o t h
    · rfl
  | propagate t e => exact steps_propagate m stack t o e
  | bubble finished => exact steps_bubble m stack o finished

theorem steps_step_of_ticks {w : World σ} {o : RunOptions} {c : Config σ} (h : c.ticks o = true) :
    (c.step w o).machine.steps = c.machine.steps + 1 := by
  rw [steps_step_eq, h, if_pos rfl]

theorem steps_le_step (w : World σ) (o : RunOptions) (c : Config σ) :
    c.machine.steps ≤ (c.step w o).machine.steps := by
  rw [steps_step_eq]
  exact Nat.le_add_right ..

end Config

end Rehearsal
