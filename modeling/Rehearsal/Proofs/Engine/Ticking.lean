import Rehearsal.Proofs.Engine.Termination
import Rehearsal.Proofs.Engine.Covering

/-!
# Counted steps

Two activities count: an effect is interpreted, and the main loop takes a turn. Nothing else looks
at the ceiling of the counter, so under two ceilings the same happens until the lower one is passed;
and once the counter is past its ceiling the run is being given up for that reason, if that can be
reported.
-/
namespace Rehearsal

variable {σ : Type}

/-- The options with another ceiling for the step counter. -/
def RunOptions.within (o : RunOptions) (limit : Nat) : RunOptions := { o with stepLimit := limit }

@[simp] theorem RunOptions.stepLimit_within (o : RunOptions) (limit : Nat) :
    (o.within limit).stepLimit = limit := rfl

namespace Machine

variable (m : Machine σ) {o : RunOptions} {limit : Nat}

@[simp] theorem steps_tick : (m.tick o).2.steps = m.steps + 1 := by
  unfold tick
  dsimp only
  split <;> rfl

@[simp] theorem registry_tick : (m.tick o).2.registry = m.registry := by
  unfold tick
  dsimp only
  split <;> rfl

/-! Only the counter looks at its ceiling. -/

theorem noteInterrupt_within (task : Task) :
    m.noteInterrupt (o.within limit) task = m.noteInterrupt o task :=
  rfl

theorem noteBubbling_within (finished : List Task) :
    m.noteBubbling (o.within limit) finished = m.noteBubbling o finished := rfl

theorem noteUnblocking_within (batch : List Task) :
    m.noteUnblocking (o.within limit) batch = m.noteUnblocking o batch := rfl

theorem suspend_within (t : Nat) (i : Interruption) :
    m.suspend (o.within limit) t i = m.suspend o t i := by
  simp only [suspend, noteInterrupt_within]

theorem holdForChildren_within (t : Nat) (held : Pending) :
    m.holdForChildren (o.within limit) t held = m.holdForChildren o t held := by
  simp only [holdForChildren, suspend_within]

theorem complete_within (t : Nat) (v : Value) :
    m.complete (o.within limit) t v = m.complete o t v := by
  simp only [complete, holdForChildren_within]

theorem fail_within (t : Nat) (e : Exn) : m.fail (o.within limit) t e = m.fail o t e := by
  simp only [fail, holdForChildren_within]

end Machine

namespace Config

variable {w : World σ} {o : RunOptions} {limit : Nat} {c : Config σ}

theorem deliver_within (w : World σ) (m : Machine σ) (a : Answer) (stack : List Frame) :
    deliver w (o.within limit) m a stack = deliver w o m a stack := by
  simp only [deliver, Machine.suspend_within]

theorem start_within (w : World σ) (m : Machine σ) (stack : List Frame) (t : Nat) :
    start w (o.within limit) m stack t = start w o m stack t := by
  simp only [start, Machine.complete_within]

theorem continueLoop_within (m : Machine σ) (root : Nat)
    (h : settled o m root = false → m.tick (o.within limit) = m.tick o) :
    continueLoop (o.within limit) m root = continueLoop o m root := by
  have hsettled : settled (o.within limit) m root = settled o m root := rfl
  unfold continueLoop
  rw [hsettled]
  cases hs : settled o m root with
  | true => simp only [if_true]
  | false => simp only [h hs, Machine.noteUnblocking_within]

theorem ticks_loop {m : Machine σ} {root : Nat} {below : List Frame} :
    ticks o ⟨m, .loop root :: below, .done⟩ = !settled o m root := rfl

theorem uncounted_of_not_ticks (h : c.ticks o = false) :
    c.uncounted = true ∨ (∃ f, c.control = .abort f) ∨
      ∃ root below, c.control = .done ∧ c.stack = .loop root :: below ∧
      settled o c.machine root = true := by
  obtain ⟨m, stack, control⟩ := c
  cases control with
  | interpret t effect b => cases h
  | abort f => exact Or.inr (Or.inl ⟨f, rfl⟩)
  | done =>
    match stack with
    | .loop root :: below =>
      rw [ticks_loop, Bool.not_eq_false'] at h
      exact Or.inr (Or.inr ⟨root, below, rfl, rfl, h⟩)
    | [] | .driving _ :: _ | .member _ :: _ | .composite _ :: _ | .forked _ :: _ | .batch _ :: _
    | .round _ _ :: _ => exact Or.inl rfl
  | _ => exact Or.inl rfl

/-- **Under another ceiling the same happens**, as long as neither ceiling is passed. -/
theorem step_within (w : World σ)
    (h : c.ticks o = true → c.machine.steps < o.stepLimit ∧ c.machine.steps < limit) :
    c.step w (o.within limit) = c.step w o := by
  obtain ⟨m, stack, control⟩ := c
  have htick : m.steps < o.stepLimit ∧ m.steps < limit → m.tick (o.within limit) = m.tick o := by
    rintro ⟨ho, hl⟩
    rw [m.tick_of_lt ho, m.tick_of_lt (o := o.within limit) hl]
  cases control with
  | interpret t effect b => simp only [step, Machine.interpret, htick (h rfl)]
  | done =>
    cases stack with
    | nil => rfl
    | cons frame below =>
      cases frame with
      | loop root =>
        refine continueLoop_within m root fun hs => htick (h ?_)
        rw [ticks_loop, hs]
        rfl
      | _ => rfl
  | answer a => exact deliver_within w m a stack
  | start t => exact start_within w m stack t
  | complete t v => simp only [step, Machine.complete_within]
  | fail t e => simp only [step, Machine.fail_within]
  | bubble finished => simp only [step, bubble, Machine.noteBubbling_within]
  | raised | abort | drive | runTask | propagate => rfl

/-- A counted step that the counter refuses does nothing but count, and fails of that. -/
theorem step_of_tick_error (w : World σ) (hticks : c.ticks o = true) {f : Failure}
    (past : (c.machine.tick o).1 = .error f) :
    (∃ t effect b, c.control = .interpret t effect b ∧
      c.step w o = ⟨(c.machine.tick o).2, c.stack, f.control⟩) ∨
    ∃ root below, c.control = .done ∧ c.stack = .loop root :: below ∧
      c.step w o = ⟨(c.machine.tick o).2, [.loop root], .abort f⟩ := by
  obtain ⟨m, stack, control⟩ := c
  dsimp only at past
  cases control with
  | interpret t effect b =>
    refine .inl ⟨t, effect, b, rfl, ?_⟩
    show ofOutcome stack (m.interpret w o t effect b) = _
    unfold Machine.interpret
    generalize m.tick o = ticked at past ⊢
    obtain ⟨result, m'⟩ := ticked
    obtain rfl : result = .error f := past
    rfl
  | done =>
    match stack with
    | .loop root :: below =>
      rw [ticks_loop, Bool.not_eq_true'] at hticks
      refine .inr ⟨root, below, rfl, rfl, ?_⟩
      show continueLoop o m root = _
      unfold continueLoop
      rw [hticks]
      generalize m.tick o = ticked at past ⊢
      obtain ⟨result, m'⟩ := ticked
      obtain rfl : result = .error f := past
      rfl
    | [] | .driving _ :: _ | .member _ :: _ | .composite _ :: _ | .forked _ :: _ | .batch _ :: _
    | .round _ _ :: _ => cases hticks
  | _ => cases hticks

/-- Where it can be reported, a counted step past the ceiling gives up the run. -/
theorem step_past (w : World σ) (hticks : c.ticks o = true) (hle : o.stepLimit ≤ c.machine.steps)
    (short : c.machine.registry.waitsLong = false) :
    ∃ below dump, c.step w o = ⟨c.machine.counted, below,
      .abort (.harness (.stopped dump (c.machine.steps + 1) .stepLimit))⟩ := by
  obtain ⟨f, htick, ⟨_, dump, rfl⟩ | ⟨long, _⟩⟩ := c.machine.tick_of_le hle
  · have hpast := congrArg Prod.fst htick
    have hcounted : (c.machine.tick o).2 = c.machine.counted := congrArg Prod.snd htick
    rw [← hcounted]
    rcases step_of_tick_error w hticks hpast with ⟨_, _, _, _, hstep⟩ | ⟨root, _, _, _, hstep⟩
    · exact ⟨_, dump, hstep⟩
    · exact ⟨_, dump, hstep⟩
  · rw [short] at long
    cases long

/-- **Where it cannot be reported**, the exception of that is thrown into who has yielded an effect,
and gives up the run between two batches. -/
theorem Unreportable.step (h : c.Unreportable o) (w : World σ) :
    (∃ t effect b, c.control = .interpret t effect b ∧
      c.step w o = ⟨c.machine.counted, c.stack, .raised c.machine.counted.unwritable⟩) ∨
    ∃ root below, c.control = .done ∧ c.stack = .loop root :: below ∧
      c.step w o =
        ⟨c.machine.counted, [.loop root], .abort (.exn c.machine.counted.unwritable)⟩ := by
  obtain ⟨f, htick, ⟨short, _⟩ | ⟨_, rfl⟩⟩ := c.machine.tick_of_le h.past
  · rw [h.long] at short
    cases short
  · have hcounted : (c.machine.tick o).2 = c.machine.counted := congrArg Prod.snd htick
    rw [← hcounted] at htick ⊢
    exact step_of_tick_error w h.ticks (congrArg Prod.fst htick)

/-- A final configuration counts nothing more. -/
theorem not_ticks_of_isFinal (h : c.isFinal = true) : c.ticks o = false := by
  obtain ⟨m, stack, control⟩ := c
  simp only [isFinal, Bool.and_eq_true, List.isEmpty_iff] at h
  obtain ⟨rfl, h⟩ := h
  cases control <;> first | rfl | cases h

/-! ### Runs -/

/-- From one configuration of a run to the next, the counter stands still or counts one. -/
theorem steps_run_succ (w : World σ) (o : RunOptions) (n : Nat) (c : Config σ) :
    (run w o (n + 1) c).machine.steps =
      (run w o n c).machine.steps + if (run w o n c).ticks o then 1 else 0 := by
  rw [run_succ]
  split
  · rename_i hf
    rw [not_ticks_of_isFinal hf]
    rfl
  · exact steps_step_eq w o _

theorem steps_run_mono (w : World σ) (o : RunOptions) (c : Config σ) {k n : Nat} (h : k ≤ n) :
    (run w o k c).machine.steps ≤ (run w o n c).machine.steps := by
  induction h with
  | refl => exact Nat.le_refl _
  | step _ ih =>
    rw [Nat.succ_eq_add_one, steps_run_succ]
    omega

/-- Giving up changes neither the counter nor the world. -/
theorem giveUp_run (w : World σ) (o : RunOptions) {f : Failure}
    (h : c.control = .abort f) (n : Nat) :
    (run w o n c).machine.steps = c.machine.steps ∧
    (run w o n c).machine.outer = c.machine.outer := by
  induction n with
  | zero => exact ⟨rfl, rfl⟩
  | succ n ih =>
    have hn := run_abort w o h n
    rw [run_succ]
    split
    · exact ih
    · generalize run w o n c = c' at hn ih ⊢
      obtain ⟨m, stack, control⟩ := c'
      obtain rfl : control = .abort f := hn
      have hkeep : (unwind m f stack).machine.steps = m.steps ∧
          (unwind m f stack).machine.outer = m.outer := by
        unfold unwind
        split <;> exact ⟨rfl, rfl⟩
      exact ⟨hkeep.1.trans ih.1, hkeep.2.trans ih.2⟩

/-- The counter is within its ceiling, or the run is given up for having passed it. -/
def Metered (o : RunOptions) (c : Config σ) : Prop :=
  c.machine.steps ≤ o.stepLimit ∨
    c.machine.steps = o.stepLimit + 1 ∧
      ∃ dump, c.control = .abort (.harness (.stopped dump (o.stepLimit + 1) .stepLimit))

theorem metered_step (w : World σ) (h : c.Metered o) (live : ∀ f, c.control ≠ .abort f)
    (reportable : ¬ c.Unreportable o) : (c.step w o).Metered o := by
  rcases h with hle | ⟨_, _, hf⟩
  · cases hticks : c.ticks o with
    | false =>
      left
      rw [steps_step_eq, hticks]
      exact hle
    | true =>
      rcases Nat.lt_or_ge c.machine.steps o.stepLimit with hlt | hge
      · left
        rw [steps_step_of_ticks hticks]
        exact hlt
      · have short : c.machine.registry.waitsLong = false :=
          Bool.eq_false_iff.mpr fun long => reportable ⟨hticks, hge, long⟩
        obtain ⟨below, dump, hstep⟩ := step_past w hticks hge short
        have heq : c.machine.steps = o.stepLimit := Nat.le_antisymm hle hge
        rw [hstep]
        exact .inr ⟨congrArg (· + 1) heq, dump, by rw [heq]⟩
  · exact (live _ hf).elim

/-- A run that can report its ceiling passes it in one way only. -/
theorem metered_run (w : World σ) (o : RunOptions) (h : c.Metered o) {n : Nat}
    (reportable : ∀ k < n, ¬ (run w o k c).Unreportable o) : (run w o n c).Metered o := by
  induction n with
  | zero => exact h
  | succ n ih =>
    have ih := ih fun k hk => reportable k (Nat.lt_succ_of_lt hk)
    by_cases live : ∀ f, (run w o n c).control ≠ .abort f
    · rw [run_succ]
      split
      · exact ih
      · exact metered_step w ih live (reportable n (Nat.lt_succ_self n))
    · simp only [not_forall, not_not] at live
      obtain ⟨f, hf⟩ := live
      have hstay := giveUp_run w o hf 1
      have habort := run_abort w o hf 1
      rw [← run_add] at hstay habort
      rcases ih with hle | ⟨hs, dump, hf'⟩
      · exact Or.inl (hstay.1.trans_le hle)
      · refine Or.inr ⟨hstay.1.trans hs, dump, ?_⟩
        rw [habort, ← hf, hf']

theorem metered_launched (o : RunOptions) (outer : σ) (name : String) (g : Nat) :
    (launched outer name g).Metered o := Or.inl (Nat.zero_le _)

end Config

end Rehearsal
