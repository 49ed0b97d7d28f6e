import Rehearsal.Proofs.Engine.Entering
import Rehearsal.Proofs.Engine.Ticking
import Rehearsal.Proofs.Engine.Unwinding
import Rehearsal.Proofs.Task.Subtree

/-!
# Every run halts

The count of steps stops at one past its ceiling, and what happens between two counted steps is
bounded by what there is at the time: rounds of bubbling, failures that climb from task to task, and
the unwinding of a run that is given up all use up `Config.slack`. Within one step, a coroutine is
unwound generator by generator, and the tasks that a task owns are walked through once.
-/
namespace Rehearsal

variable {σ : Type}

namespace Config

variable {w : World σ} {o : RunOptions} {c : Config σ}

/-- How many steps may follow that are not counted. Each task that is there can use up effort, and
at most one round over the pending tasks follows each time. -/
def slack (c : Config σ) : Nat :=
  match c.control with
  | .interpret .. => 0
  | .abort _ => c.weight
  | _ => c.machine.registry.effort * (5 * c.machine.registry.pending.length + 4) + c.weight + 1

theorem slack_le (c : Config σ) :
    c.slack ≤
      c.machine.registry.effort * (5 * c.machine.registry.pending.length + 4) + c.weight + 1 := by
  unfold slack
  split <;> omega

theorem slack_eq (hb : c.between = true) :
    c.slack =
      c.machine.registry.effort * (5 * c.machine.registry.pending.length + 4) + c.weight + 1 := by
  obtain ⟨m, stack, control⟩ := c
  cases control with
  | interpret t effect b => cases hb
  | abort f => cases hb
  | _ => rfl

/-- No more than a round is added for each bit of effort. -/
theorem round_le {effort effort' pending pending' weight weight' : Nat} (hp : pending' ≤ pending)
    (he : effort' < effort) (hw : weight' ≤ weight + 5 * pending + 3) :
    effort' * (5 * pending' + 4) + weight' < effort * (5 * pending + 4) + weight := by
  have hround : 5 * pending' + 4 ≤ 5 * pending + 4 := by omega
  have hused : (effort' + 1) * (5 * pending + 4) ≤ effort * (5 * pending + 4) :=
    Nat.mul_le_mul_right _ he
  have hkept : effort' * (5 * pending' + 4) ≤ effort' * (5 * pending + 4) :=
    Nat.mul_le_mul_left _ hround
  have hone : (effort' + 1) * (5 * pending + 4) = effort' * (5 * pending + 4) + (5 * pending + 4) :=
    Nat.succ_mul ..
  omega

theorem Recedes.slack_lt {c' : Config σ} (h : Recedes c' c) (hb : c.between = true) :
    c'.slack < c.slack := by
  have hle := slack_le c'
  rw [slack_eq hb]
  cases h with
  | interprets h => simp only [slack, h]; omega
  | quits h hw => simp only [slack, h]; omega
  | effort he h hw =>
    have hround := round_le he.pending h hw
    omega
  | weight he h =>
    have hkept : c'.machine.registry.effort * (5 * c'.machine.registry.pending.length + 4) ≤
        c.machine.registry.effort * (5 * c.machine.registry.pending.length + 4) :=
      Nat.mul_le_mul he.effort (Nat.add_le_add_right (Nat.mul_le_mul_left _ he.pending) _)
    omega

/-- **A step that is not counted uses up slack.** -/
theorem slack_step_lt (w : World σ) {begun : Nat → Prop} (hc : c.Sound begun)
    (hf : c.isFinal = false)
    (hticks : c.ticks o = false) : (c.step w o).slack < c.slack := by
  rcases uncounted_of_not_ticks hticks with hu | ⟨f, habort⟩ | ⟨root, below,
    hdone, hstack, hsettled⟩
  · exact (recedes_step w o hc hu hf).slack_lt (between_of_uncounted hu)
  · obtain ⟨m, stack, control⟩ := c
    obtain rfl : control = .abort f := habort
    match stack with
    | [] => cases hf
    | .driving _ :: _ | .member _ :: _ | .composite _ :: _ | .forked _ :: _ | .batch _ :: _
    | .round _ _ :: _ | .loop _ :: _ =>
      show weight _ < weight _
      exact weight_pop (by simp [load, Frame.weight])
  · obtain ⟨m, stack, control⟩ := c
    obtain rfl : control = .done := hdone
    obtain rfl : stack = .loop root :: below := hstack
    have hstep : step w o ⟨m, .loop root :: below, .done⟩ = halt m [] := by
      show continueLoop o m root = halt m []
      unfold continueLoop
      exact if_pos hsettled
    rw [hstep]
    simp only [slack, halt, weight, load, Frame.weight, List.map_cons, List.sum_cons, List.map_nil,
      List.sum_nil]
    omega

/-- Within the slack the next counted step comes, or the run ends. -/
theorem exists_ticks_or_isFinal (w : World σ) (o : RunOptions) {begun : Nat → Prop}
    (hc : c.Sound begun) :
    ∃ k ≤ c.slack, (run w o k c).isFinal = true ∨ (run w o k c).ticks o = true := by
  induction hn : c.slack using Nat.strong_induction_on generalizing c begun with
  | _ n ih =>
    cases hf : c.isFinal with
    | true => exact ⟨0, Nat.zero_le _, Or.inl hf⟩
    | false =>
      cases hticks : c.ticks o with
      | true => exact ⟨0, Nat.zero_le _, Or.inr hticks⟩
      | false =>
        have hlt := slack_step_lt w hc hf hticks
        obtain ⟨k, hk, h⟩ := ih _ (hn ▸ hlt) (sound_step w o hc) rfl
        refine ⟨k + 1, by omega, ?_⟩
        rw [run_one w o hf]
        exact h

/-- A count past the ceiling is the end of the run, and what it ends with. -/
theorem ends_past_ceiling (w : World σ) {begun : Nat → Prop} (hc : c.Sound begun) (hm : c.Metered o)
    (hs : c.machine.steps = o.stepLimit + 1) :
    ∃ dump n, (run w o n c).isFinal = true ∧
      (run w o n c).control = .abort (.harness (.stopped dump (o.stepLimit + 1) .stepLimit)) := by
  rcases hm with hle | ⟨_, dump, hf⟩
  · omega
  · obtain ⟨n, hn⟩ := exists_isFinal_of_abort hc hf
    exact ⟨dump, n, hn, run_abort w o hf n⟩

/-- A run that can report its ceiling has its counter in order throughout. -/
theorem Legible.metered {outer : σ} {name : String} {g : Nat}
    (h : Legible w o (launched outer name g))
    (n : Nat) : (run w o n (launched outer name g)).Metered o :=
  metered_run w o (metered_launched o outer name g) fun k _ => h k

/-- A run that ends without coming to its ceiling can report it, as it need not. -/
theorem legible_of_within {n : Nat} (final : (run w o n c).isFinal = true)
    (within : (run w o n c).machine.steps < o.stepLimit) : Legible w o c := by
  intro k balks
  have hmono : (run w o k c).machine.steps ≤ (run w o n c).machine.steps := by
    rcases Nat.le_total k n with hk | hk
    · exact steps_run_mono w o c hk
    · obtain ⟨d, rfl⟩ := Nat.exists_eq_add_of_le hk
      rw [run_add, run_of_isFinal w o d final]
  exact Nat.not_lt.mpr balks.past (Nat.lt_of_le_of_lt hmono within)

/-- A run that never ends throws the exception of a report that it cannot write into tested code. -/
theorem exists_balk_of_endless (w : World σ) (o : RunOptions)
    {begun : Nat → Prop} (hc : c.Sound begun)
    (endless : ∀ n, (run w o n c).isFinal = false) : ∃ n t effect inComposite,
      (run w o n c).Unreportable o ∧ (run w o n c).control = .interpret t effect inComposite ∧
      (run w o (n + 1) c).control = .raised (run w o (n + 1) c).machine.unwritable := by
  obtain ⟨n, hf | balk⟩ := exists_isFinal_or_unreportable w o hc
  · rw [endless n] at hf
    cases hf
  · have hnext : run w o (n + 1) c = (run w o n c).step w o := run_succ_of_not_isFinal (endless n)
    rcases balk.step w with ⟨t, effect, b, hcontrol, hstep⟩ | ⟨root, below, _, _, hstep⟩
    · exact ⟨n, t, effect, b, balk, hcontrol, by rw [hnext, hstep]⟩
    · -- between two batches the run is given up, and ends
      obtain ⟨_, _, hs⟩ := sound_run w o hc (n + 1)
      have habort : (run w o (n + 1) c).control =
          .abort (.exn (run w o n c).machine.counted.unwritable) := by
        rw [hnext, hstep]
      obtain ⟨k, hk⟩ := exists_isFinal_of_abort (w := w) (o := o) hs habort
      rw [← run_add, endless] at hk
      cases hk

end Config

namespace Config

variable {w : World σ} {o : RunOptions} {c : Config σ}

/-- A run goes on for ever from where it gets, in one step at least, to where it does again. -/
theorem endless_of_progress {I : Config σ → Prop} (live : ∀ c, I c → c.isFinal = false)
    (progress : ∀ c, I c → ∃ k, 0 < k ∧ I (run w o k c)) (h : I c) (n : Nat) :
    (run w o n c).isFinal = false := by
  have far : ∀ n, ∃ k ≥ n, I (run w o k c) := by
    intro n
    induction n with
    | zero => exact ⟨0, Nat.le_refl 0, h⟩
    | succ n ih =>
      obtain ⟨k, hk, hI⟩ := ih
      obtain ⟨d, hd, hI'⟩ := progress _ hI
      exact ⟨k + d, by omega, by rw [run_add]; exact hI'⟩
  obtain ⟨k, hk, hI⟩ := far n
  cases hf : (run w o n c).isFinal with
  | false => rfl
  | true =>
    obtain ⟨d, rfl⟩ := Nat.exists_eq_add_of_le hk
    rw [run_add, run_of_isFinal w o d hf] at hI
    exact hf.symm.trans (live _ hI)

/-- What a run comes to for ever it has not ended before. -/
theorem endless_of_run {k : Nat} (h : ∀ n, (run w o n (run w o k c)).isFinal = false) (n : Nat) :
    (run w o n c).isFinal = false := by
  cases hf : (run w o n c).isFinal with
  | false => rfl
  | true =>
    have hlate := h n
    rw [← run_add, Nat.add_comm, run_add, run_of_isFinal w o k hf, hf] at hlate
    cases hlate

/-- Past its ceiling, which cannot be reported, a task is about to have an effect interpreted. -/
structure Defies (o : RunOptions) (c : Config σ) : Prop where
  unreportable : c.Unreportable o
  driven : ∃ t below effect inComposite u g frames started, c.stack = .driving t :: below ∧
    c.control = .interpret t effect inComposite ∧ c.machine.registry.get? t = some u ∧
    u.coroutine = some ⟨g :: frames, started⟩

theorem Defies.unfinished (h : c.Defies o) : c.isFinal = false := by
  cases hf : c.isFinal with
  | false => rfl
  | true => cases (not_ticks_of_isFinal hf).symm.trans h.unreportable.ticks

/-- It has the exception thrown in, and if it yields another effect then it is there again. -/
theorem Defies.run_two
    (catches : ∀ view g e s, ∃ x s', w.resume view g (.throw e) s = (.yielded x, s'))
    (h : c.Defies o) : (run w o 2 c).Defies o := by
  obtain ⟨t, below, effect, b, u, g, frames, started, hstack, hcontrol, hu, hco⟩ := h.driven
  have hlong := h.unreportable.long
  have hpast := h.unreportable.past
  have hfirst : c.step w o =
      ⟨c.machine.counted, .driving t :: below, .raised c.machine.counted.unwritable⟩ := by
    rcases h.unreportable.step w with ⟨_, _, _, _, hs⟩ | ⟨_, _, hdone, _⟩
    · rw [hs, hstack]
    · rw [hcontrol] at hdone
      cases hdone
  have hone : run w o 1 c = c.step w o := run_one w o h.unfinished 0
  have htwo : run w o 2 c = (c.step w o).step w o := by
    rw [show run w o 2 c = run w o 1 (run w o 1 c) from run_add w o 1 1 c, hone]
    exact run_one w o (by rw [hfirst]; rfl) 0
  generalize c.machine = m at *
  generalize m.counted.unwritable = e at hfirst
  obtain ⟨x, s', hx⟩ := catches { m.counted.view with handled := some e } g e m.outer
  have hgo : (⟨g :: frames, started⟩ : Coroutine).resume w
      { m.counted.view with handled := some e } (.throw e)
      m.counted.outer = (.suspended x, ⟨g :: frames, true⟩, s') := by
    simp only [Coroutine.resume, Coroutine.signalFor, Coroutine.advance]
    rw [show m.counted.outer = m.outer from rfl, hx]
  have hsecond : run w o 2 c = ⟨m.counted.holding t ⟨g :: frames, true⟩ s', .driving t :: below,
      .interpret t x false⟩ := by
    rw [htwo, hfirst]
    show withCoroutine m.counted below t
      (fun co s => co.resume w { m.counted.view with handled := some e } (.throw e) s) = _
    rw [withCoroutine_eq (show m.counted.get? t = some u from hu) hco, hgo]
    rfl
  rw [hsecond]
  refine ⟨⟨rfl, Nat.le_succ_of_le hpast, ?_⟩, t, below, x, false, _, g, frames, true, rfl, rfl,
    Machine.get?_holding (show m.counted.get? t = some u from hu) _ _, rfl⟩
  refine Eq.trans ?_ hlong
  exact m.registry.waitsLong_modify t
    (f := fun u => { u with coroutine := some ⟨g :: frames, true⟩ }) fun _ => ⟨rfl, rfl⟩

/-- **A task that catches whatever is thrown into it runs for ever** past a ceiling that cannot be
reported. -/
theorem Defies.endless
    (catches : ∀ view g e s, ∃ x s', w.resume view g (.throw e) s = (.yielded x, s'))
    (h : c.Defies o) (n : Nat) : (run w o n c).isFinal = false :=
  endless_of_progress (fun _ h => h.unfinished) (fun _ h => ⟨2, by decide, h.run_two catches⟩) h n

end Config

/-- A root that forks a call made a step later, and a generator that joins it under a number too
long to be written. -/
def Playbook.waitingUnwritably : Playbook where
  responses
    | 0 =>
      [.yielded (.effect (.fork .null [] [] false)), .yielded (.effect (.fork .null [] [] false)),
        .yielded (.effect .cancelled)]
    | _ => [.yielded (.effect (.join (.keyed false [(.int (Nat.pow 10 4300), ⟨1, "work", true⟩)])))]
  plans := [⟨false, .null, none, .tick 1⟩, ⟨false, .generator 1, none, .now⟩]

/-- The world that goes by its playbook, but for generators that catch what is thrown into them. -/
def Playbook.stubborn : World Playbook :=
  { Playbook.world with
    resume := fun view g signal s => match signal with
      | .send _ => Playbook.world.resume view g signal s
      | .throw _ => (.yielded (.effect .cancelled), s) }

end Rehearsal
