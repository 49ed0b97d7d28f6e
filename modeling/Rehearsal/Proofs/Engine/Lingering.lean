import Mathlib.Data.Nat.Find
import Rehearsal.Proofs.Engine.Ceiling
import Rehearsal.Proofs.Engine.Finality

/-!
# Waiting for spawned tasks only extends the run

Whether a run goes on until detached tasks are over as well is asked in one place only: where the
main loop finds its root over. Up to there two runs that differ in this are the same. From there on
the root has its result, and what is on record is only added to.
-/
namespace Rehearsal

variable {σ : Type}

/-- The options with or without waiting for detached tasks. -/
def RunOptions.waiting (o : RunOptions) (wait : Bool) :
    RunOptions := { o with waitForSpawned := wait }

theorem Failure.control_ne_done (f : Failure) : f.control ≠ .done := by
  cases f with
  | exn e =>
    unfold control
    dsimp only
    split <;> exact nofun
  | harness _ => exact nofun

theorem Nested.ne_singleton {who : Option Nat} {f : Frame} : ¬ Nested who [f] := by
  intro h
  rcases h.tail with ⟨_, h⟩ | ⟨_, h⟩
  · exact h.ne_nil
  · cases h

/-- Nothing but a turn of the main loop makes a run return. -/
theorem Turn.returned_inv {o : RunOptions} {c c' : Config σ} (turn : Turn o c c')
    (standing : (∃ who, Nested who c.stack) ∨ ∃ root, c.stack = [.loop root]) (h : c'.Returned) :
    c.control = .done ∧ ∃ root, c.stack = [.loop root] := by
  obtain ⟨hstack, hcontrol⟩ := h
  have hsome : c.stack ≠ [] := by
    rcases standing with ⟨who, nested⟩ | ⟨root, hs⟩
    · exact fun hs => (hs ▸ nested).ne_nil
    · exact fun hs' => by rw [hs] at hs'; cases hs'
  cases turn with
  | ends root => exact ⟨rfl, root, rfl⟩
  | blocks runner below _ =>
    obtain rfl : below = [] := hstack
    rcases standing with ⟨who, nested⟩ | ⟨root, hs⟩
    · exact (Nested.ne_singleton nested).elim
    · cases hs
      cases runner
  | picks _ _ _ _ => cases hstack
  | rounds _ _ _ => cases hstack
  | unblocks _ _ => cases hstack
  | refuses _ _ _ _ f => exact (f.control_ne_done hcontrol).elim
  | @condemns _ _ _ _ e _ => exact (Failure.control_ne_done (.exn e) hcontrol).elim
  | @rethrows _ _ _ _ e _ _ _ => exact (Failure.control_ne_done (.exn e) hcontrol).elim
  | _ => first | exact (hsome hstack).elim | cases hcontrol

namespace Config

variable {w : World σ} {o : RunOptions} {c : Config σ} {begun : Nat → Prop} {wait : Bool}

def RootOver (c : Config σ) : Prop :=
  c.control = .done ∧ ∃ root below, c.stack = .loop root :: below ∧
  c.machine.registry.isDone root = true

/-- **Until the main loop finds its root over, it does not matter whether detached tasks are waited
for.** -/
theorem step_waiting (w : World σ) (h : ¬ c.RootOver) : c.step w (o.waiting wait) = c.step w o := by
  obtain ⟨m, stack, control⟩ := c
  cases control with
  | done =>
    cases stack with
    | nil => rfl
    | cons frame below =>
      cases frame with
      | loop root =>
        have hopen : m.registry.isDone root = false :=
          Bool.eq_false_iff.mpr fun hdone => h ⟨rfl, root, below, rfl, hdone⟩
        have hsettled : ∀ o : RunOptions, settled o m root = false := fun o => by
          rw [settled, hopen, Bool.false_and]
        show continueLoop (o.waiting wait) m root = continueLoop o m root
        unfold continueLoop
        rw [hsettled, hsettled]
        rfl
      | _ => rfl
  | _ => rfl

theorem run_waiting (w : World σ) {k : Nat} (h : ∀ j < k, ¬ (run w o j c).RootOver) :
    run w (o.waiting wait) k c = run w o k c := by
  induction k with
  | zero => rfl
  | succ k ih =>
    rw [run_succ, run_succ, ih fun j hj => h j (Nat.lt_succ_of_lt hj),
      step_waiting w (h k (Nat.lt_succ_self k))]

/-- A run that does not wait for detached tasks returns as soon as its root is over. -/
theorem RootOver.returns (h : c.RootOver) :
    c.step w (o.waiting false) = ⟨c.machine, [], .done⟩ := by
  obtain ⟨m, stack, control⟩ := c
  obtain ⟨rfl, root, below, rfl, hdone⟩ := h
  have hdone' : m.registry.isDone root = true := hdone
  show continueLoop (o.waiting false) m root = _
  exact continueLoop_of_settled (by rw [settled, hdone']; rfl)

theorem RootOver.not_isFinal (h : c.RootOver) : c.isFinal = false := by
  obtain ⟨m, stack, control⟩ := c
  obtain ⟨rfl, root, below, rfl, _⟩ := h
  rfl

/-- The root of a run is its first task. -/
theorem RootOver.isDone (h : c.RootOver) (hc : c.Sound begun) :
    c.machine.registry.isDone 0 = true := by
  obtain ⟨m, stack, control⟩ := c
  obtain ⟨rfl, root, below, rfl, hdone⟩ := h
  cases hc with
  | resting core _ => exact core.frames (.loop root) (List.mem_cons_self ..) ▸ hdone
  | looking _ _ => exact hdone

/-- Something stands on the stack, until a run has returned or is given up. -/
theorem standing_of_sound (hc : c.Sound begun) (hgoing : ∀ f, c.control ≠ .abort f)
    (hf : c.isFinal = false) :
    (∃ who, Nested who c.stack) ∨ ∃ root, c.stack = [.loop root] := by
  obtain ⟨m, stack, control⟩ := c
  cases hc with
  | settled _ _ => cases hf
  | aborted f _ => exact (hgoing f rfl).elim
  | looking _ _ => exact Or.inr ⟨0, rfl⟩
  | bubbling _ _ _ => exact Or.inr ⟨0, rfl⟩
  | _ => exact Or.inl ⟨_, ‹_›⟩

/-- **A run returns where the main loop finds it settled**, and leaves everything as it is. -/
theorem rootOver_of_returned (hc : c.Sound begun) (hf : c.isFinal = false)
    (h : (c.step w o).Returned) :
    c.RootOver ∧ (c.step w o).machine = c.machine ∧
      (o.waitForSpawned = true → c.machine.registry.pending = []) := by
  have hgoing : ∀ f, c.control ≠ .abort f := by
    obtain ⟨m, stack, control⟩ := c
    rintro f rfl
    obtain ⟨-, hcontrol⟩ := h
    cases stack with
    | nil => cases hcontrol
    | cons frame below => cases frame <;> cases hcontrol
  obtain ⟨hcontrol, root, hstack⟩ :=
    (turn_step w o hc).returned_inv (standing_of_sound hc hgoing hf) h
  obtain ⟨m, stack, control⟩ := c
  obtain rfl : control = .done := hcontrol
  obtain rfl : stack = [.loop root] := hstack
  have hreturned : (continueLoop o m root).Returned := h
  show RootOver ⟨m, [.loop root], .done⟩ ∧ (continueLoop o m root).machine = m ∧ _
  rcases continueLoop_cases o m root with
    ⟨hsettled, hend⟩ | ⟨_, ⟨f, hend⟩ | ⟨_, _, trace, hend⟩⟩ <;> rw [hend] at hreturned ⊢
  · rw [settled, Bool.and_eq_true] at hsettled
    refine ⟨⟨rfl, root, [], rfl, hsettled.1⟩, rfl, fun hwait => ?_⟩
    simpa [hwait] using hsettled.2
  · cases hreturned.2
  · cases hreturned.1

/-- The turn of the main loop by which a run has returned. -/
theorem exists_rootOver (w : World σ) (o : RunOptions) (hc : c.Sound begun)
    (hgoing : ¬ c.Returned) {n : Nat}
    (h : (run w o n c).Returned) :
    ∃ k < n, (run w o k c).RootOver ∧ (run w o n c).machine = (run w o k c).machine ∧
      (o.waitForSpawned = true → (run w o k c).machine.registry.pending = []) := by
  induction n with
  | zero => exact (hgoing h).elim
  | succ n ih =>
    rw [run_succ] at h ⊢
    cases hf : (run w o n c).isFinal with
    | true =>
      simp only [hf, if_true] at h ⊢
      obtain ⟨k, hk, hover⟩ := ih h
      exact ⟨k, Nat.lt_succ_of_lt hk, hover⟩
    | false =>
      simp only [hf, Bool.false_eq_true, if_false] at h ⊢
      obtain ⟨_, _, hs⟩ := sound_run w o hc n
      exact ⟨n, Nat.lt_succ_self n, rootOver_of_returned hs hf h⟩

/-- Once the root is over, its result stays. -/
theorem result_of_isDone (w : World σ) (o : RunOptions) (hc : c.Sound begun)
    (hopen : c.Open) {k n : Nat}
    (hkn : k ≤ n) (hover : (run w o k c).machine.registry.isDone 0 = true) :
    ∃ u u', (run w o k c).machine.get? 0 = some u ∧ (run w o n c).machine.get? 0 = some u' ∧
      u'.result = u.result := by
  obtain ⟨u, hu, hdone⟩ := Registry.isDone_iff.mp hover
  obtain ⟨a, b, hlater⟩ := final_run w o hc hopen hkn hu hdone
  exact ⟨u, u.flag a b, hu, hlater, rfl⟩

theorem Returned.isFinal (h : c.Returned) : c.isFinal = true := by
  unfold Config.isFinal
  rw [h.1, h.2]
  rfl

theorem Returned.ending {t : Task} (h : c.Returned) (ht : c.machine.get? 0 = some t) :
    c.ending = .ok t.result := by
  unfold Config.ending failure?
  simp only [h.2, ht]

/-- Of two runs that differ in whether they wait for detached tasks, the one that does not wait is
the same up to its own end, where its machine is one that the other run passes through. -/
theorem exists_shorter (w : World σ) (o : RunOptions) {c : Config σ} {begun : Nat → Prop}
    (hc : c.Sound begun) (hopen : c.Open) (hgoing : ¬ c.Returned) {n : Nat}
    (returned : (run w (o.waiting true) n c).Returned) :
    (run w (o.waiting true) n c).machine.registry.pending = [] ∧
    ∃ k ≤ n, (∀ j < k, run w (o.waiting false) j c = run w (o.waiting true) j c) ∧
      (run w (o.waiting false) k c).Returned ∧
      (run w (o.waiting false) k c).ending = (run w (o.waiting true) n c).ending ∧
      ∃ j ≤ n, (run w (o.waiting false) k c).machine = (run w (o.waiting true) j c).machine := by
  classical
  obtain ⟨k₀, hk₀, hover₀, hsame, hpending⟩ :=
    exists_rootOver w (o.waiting true) hc hgoing returned
  refine ⟨hsame ▸ hpending rfl, ?_⟩
  -- the shorter run ends with the first turn that finds the root over
  have hexists : ∃ k, (run w (o.waiting true) k c).RootOver := ⟨k₀, hover₀⟩
  obtain ⟨k, hover, hfirst⟩ : ∃ k, (run w (o.waiting true) k c).RootOver ∧
      ∀ j < k, ¬ (run w (o.waiting true) j c).RootOver :=
    ⟨Nat.find hexists, Nat.find_spec hexists, fun j hj => Nat.find_min hexists hj⟩
  have hkn : k < n := by
    refine Nat.lt_of_le_of_lt (Nat.le_of_not_lt fun hlt => ?_) hk₀
    exact hfirst k₀ hlt hover₀
  have hshort : ∀ j ≤ k, run w (o.waiting false) j c = run w (o.waiting true) j c :=
    fun j hj => run_waiting w (o := o.waiting true) fun i hi =>
      hfirst i (Nat.lt_of_lt_of_le hi hj)
  have hend : run w (o.waiting false) (k + 1) c =
      ⟨(run w (o.waiting true) k c).machine, [], .done⟩ := by
    rw [run_succ, hshort k (Nat.le_refl k), hover.not_isFinal]
    exact hover.returns
  obtain ⟨_, _, hs⟩ := sound_run w (o.waiting true) hc k
  obtain ⟨u, u', hu, hu', hresult⟩ :=
    result_of_isDone w (o.waiting true) hc hopen hkn.le (hover.isDone hs)
  refine ⟨k + 1, hkn, fun j hj => hshort j (Nat.le_of_lt_succ hj), ?_⟩
  rw [hend]
  refine ⟨⟨rfl, rfl⟩, ?_, k, hkn.le, rfl⟩
  rw [returned.ending hu', hresult]
  exact Returned.ending ⟨rfl, rfl⟩ hu

/-- A run from its launch, and the one that does not wait for detached tasks. -/
theorem exists_shorter_launched (w : World σ) (o : RunOptions) (outer : σ) (name : String)
    (g : Nat) {n : Nat} (returned : (run w (o.waiting true) n (launched outer name g)).Returned) :
    (run w (o.waiting true) n (launched outer name g)).machine.registry.pending = [] ∧
    ∃ k ≤ n, (∀ j < k, run w (o.waiting false) j (launched outer name g) =
        run w (o.waiting true) j (launched outer name g)) ∧
      (run w (o.waiting false) k (launched outer name g)).Returned ∧
      (run w (o.waiting false) k (launched outer name g)).ending =
        (run w (o.waiting true) n (launched outer name g)).ending ∧
      ∃ j ≤ n, (run w (o.waiting false) k (launched outer name g)).machine =
        (run w (o.waiting true) j (launched outer name g)).machine :=
  exists_shorter w o (sound_launched outer name g) (open_of_sound (sound_launched outer name g)
    nofun) nofun returned

end Config

open Config in
/-- **Waiting for spawned tasks only extends the run.** Take a run that waits for detached tasks and
returns, with everything that passes between the scheduler and the world on record. Then no task is
pending at its end. The run that does not wait is the same up to its own end, where it returns the
same value after no more steps; and its record, with its resumptions, the calls that were planned
and the actions that were handled, is where the record of the longer run begins. -/
theorem waiting_only_extends (w : World σ) (o : RunOptions) (outer : σ) (name : String) (g n : Nat)
    (returned : (run w.recorded (o.waiting true) n (launched (outer, []) name g)).Returned) :
    (run w.recorded (o.waiting true) n (launched (outer, []) name g)).machine.registry.pending =
      [] ∧
    ∃ k ≤ n, (∀ j < k, run w.recorded (o.waiting false) j (launched (outer, []) name g) =
        run w.recorded (o.waiting true) j (launched (outer, []) name g)) ∧
      (run w.recorded (o.waiting false) k (launched (outer, []) name g)).Returned ∧
      (run w.recorded (o.waiting false) k (launched (outer, []) name g)).ending =
        (run w.recorded (o.waiting true) n (launched (outer, []) name g)).ending ∧
      (run w.recorded (o.waiting false) k (launched (outer, []) name g)).machine.steps ≤
        (run w.recorded (o.waiting true) n (launched (outer, []) name g)).machine.steps ∧
      (run w.recorded (o.waiting false) k (launched (outer, []) name g)).machine.outer.2 <+:
        (run w.recorded (o.waiting true) n (launched (outer, []) name g)).machine.outer.2 := by
  obtain ⟨hpending, k, hk, hshort, hreturned, hend, j, hj, hmachine⟩ :=
    exists_shorter_launched w.recorded o (outer, []) name g returned
  refine ⟨hpending, k, hk, hshort, hreturned, hend, ?_, ?_⟩
  · rw [hmachine]
    exact steps_run_mono w.recorded (o.waiting true) _ hj
  · rw [hmachine]
    obtain ⟨d, rfl⟩ := Nat.exists_eq_add_of_le hj
    rw [run_add]
    exact record_run w (o.waiting true) (run w.recorded (o.waiting true) j _) d

/-- The root spawns a task that waits for a delay, and returns. With or without waiting for that
task the run returns the same, and nothing is pending after the longer one. -/
theorem spawned_delay_only_extends :
    (Config.run Playbook.world.recorded (RunOptions.default.waiting true) 40
        (Config.launched (Playbook.spawned, []) "root" 0)).machine.registry.pending = [] ∧
      ∃ k ≤ 40, (Config.run Playbook.world.recorded (RunOptions.default.waiting false) k
          (Config.launched (Playbook.spawned, []) "root" 0)).Returned ∧
        (Config.run Playbook.world.recorded (RunOptions.default.waiting false) k
          (Config.launched (Playbook.spawned, []) "root" 0)).machine.outer.2 <+:
          (Config.run Playbook.world.recorded (RunOptions.default.waiting true) 40
            (Config.launched (Playbook.spawned, []) "root" 0)).machine.outer.2 := by
  obtain ⟨hpending, k, hk, _, hreturned, _, _, hrecord⟩ :=
    waiting_only_extends Playbook.world .default Playbook.spawned "root" 0 40 ⟨rfl, rfl⟩
  exact ⟨hpending, k, hk, hreturned, hrecord⟩

end Rehearsal
