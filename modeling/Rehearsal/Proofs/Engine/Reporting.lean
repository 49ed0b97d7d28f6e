import Rehearsal.Engine.Run
import Rehearsal.Proofs.Task.Order
import Rehearsal.Proofs.Task.Reports

/-!
# Reports

Counting a step and writing diagnostics change the counter and the trace, and nothing else. Where a
report would have to show a number too long to be written, the refusal to write it takes its place.
-/
namespace Rehearsal

variable {σ : Type}

def DebugOptions.Traces (d : DebugOptions) : Prop :=
  ∃ tasks, d.unblock.applies tasks = true ∨ d.bubble.applies tasks = true

namespace Machine

variable (m : Machine σ) {o : RunOptions}

/-- The exception that takes the place of a report. -/
def unwritable : Exn := (longRefusal none).at (.scheduler m.steps)

@[simp] theorem control_unwritable :
    (Failure.exn m.unwritable).control = .raised m.unwritable := rfl

/-- A report is written, or shows a number too long to be. -/
theorem stopped_cases (header : String) (reason : StopReason) :
    (m.registry.waitsLong = false ∧ ∃ dump, m.registry.dump header = .ok dump ∧
      m.stopped header reason = .harness (.stopped dump m.steps reason)) ∨
    m.registry.waitsLong = true ∧ m.stopped header reason = .exn m.unwritable := by
  unfold stopped
  cases h : m.registry.waitsLong with
  | true => exact .inr ⟨rfl, by rw [Registry.dump_of_waitsLong h]; rfl⟩
  | false => exact .inl ⟨rfl, _, Registry.dump_of_writable h, by rw [Registry.dump_of_writable h]⟩

/-- The machine with one more step counted. -/
def counted : Machine σ := { m with steps := m.steps + 1 }

theorem tick_of_lt (h : m.steps < o.stepLimit) : m.tick o = (.ok (), m.counted) := by
  have hle : ¬ m.steps + 1 > o.stepLimit := by omega
  simp only [tick, if_neg hle]
  rfl

/-- A step past the ceiling is refused, with the report of that where it can be written. -/
theorem tick_of_le (h : o.stepLimit ≤ m.steps) : ∃ f, m.tick o = (.error f, m.counted) ∧
    ((m.registry.waitsLong = false ∧
      ∃ dump, f = .harness (.stopped dump (m.steps + 1) .stepLimit)) ∨
      m.registry.waitsLong = true ∧ f = .exn m.counted.unwritable) := by
  have hlt : m.steps + 1 > o.stepLimit := by omega
  refine ⟨_, by simp only [tick, if_pos hlt]; rfl, ?_⟩
  rcases m.counted.stopped_cases ("Step limit of " ++ toString o.stepLimit ++ " exceeded: ")
    .stepLimit with ⟨hshort, dump, _, heq⟩ | ⟨hlong, heq⟩
  · exact .inl ⟨hshort, dump, heq⟩
  · exact .inr ⟨hlong, heq⟩

/-- What takes the place of a report is that it cannot be written. -/
theorem eq_of_stopped {header : String} {reason : StopReason} {e : Exn}
    (h : m.stopped header reason = .exn e) : e = m.unwritable := by
  rcases m.stopped_cases header reason with ⟨_, dump, _, heq⟩ | ⟨_, heq⟩ <;>
    rw [heq] at h <;> cases h
  rfl

theorem eq_of_tick {e : Exn} {m' : Machine σ} (h : m.tick o = (.error (.exn e), m')) :
    e = m.counted.unwritable := by
  rcases Nat.lt_or_ge m.steps o.stepLimit with hlt | hle
  · rw [m.tick_of_lt hlt] at h
    cases h
  · obtain ⟨f, heq, ⟨_, dump, rfl⟩ | ⟨_, rfl⟩⟩ := m.tick_of_le hle <;> rw [heq] at h <;> cases h
    rfl

theorem lt_of_tick_ok {m : Machine σ} (h : (m.tick o).1 = .ok ()) : m.steps < o.stepLimit := by
  rcases Nat.lt_or_ge m.steps o.stepLimit with hlt | hle
  · exact hlt
  · obtain ⟨f, htick, _⟩ := m.tick_of_le hle
    rw [htick] at h
    cases h

def Untraceable (o : RunOptions) (m : Machine σ) : Prop := o.debug.Traces ∧ m.registry.Unshowable

/-- Writing what bubbles adds to the trace, or is refused. -/
theorem noteBubbling_cases (ids : List Nat) :
    (∃ trace, m.noteBubbling o (m.registry.select ids) = .ok { m with trace }) ∨
      m.Untraceable o ∧
        m.noteBubbling o (m.registry.select ids) = .error (.exn m.unwritable) := by
  unfold noteBubbling Registry.renderTasks Registry.renderPendingTasks
  split
  · rename_i traced
    have traces : o.debug.Traces := ⟨_, .inr traced⟩
    cases hshown : (m.registry.select ids).any m.registry.endsLong with
    | true =>
      obtain ⟨u, hu, long⟩ := List.any_eq_true.mp hshown
      exact .inr ⟨⟨traces, Registry.unshowable_of_mem_select hu (.inl long)⟩, rfl⟩
    | false =>
      cases hawaited :
        m.registry.pendingTasks.any fun t => t.wait.hasLong || m.registry.awaitsLong t with
      | true =>
        obtain ⟨u, hu, long⟩ := List.any_eq_true.mp hawaited
        exact .inr ⟨⟨traces, Registry.unshowable_of_mem_select hu
          ((Bool.or_eq_true_iff.mp long).imp_left Registry.endsLong_of_wait)⟩, rfl⟩
      | false => exact .inl ⟨_, rfl⟩
  · exact .inl ⟨m.trace, rfl⟩

/-- Writing what unblocks adds to the trace, or is refused. -/
theorem noteUnblocking_cases :
    (∃ trace, m.noteUnblocking o (selectReadyBatch m.registry.pendingTasks) =
      .ok { m with trace }) ∨
      m.Untraceable o ∧
        m.noteUnblocking o (selectReadyBatch m.registry.pendingTasks) =
          .error (.exn m.unwritable) := by
  unfold noteUnblocking Registry.renderTasks renderTaskTree
  split
  · rename_i traced
    have traces : o.debug.Traces := ⟨_, .inl traced⟩
    cases hshown : (selectReadyBatch m.registry.pendingTasks).any m.registry.endsLong with
    | true =>
      obtain ⟨u, hu, long⟩ := List.any_eq_true.mp hshown
      have hmem := (selectReadyBatch_sublist _).subset hu
      exact .inr ⟨⟨traces, Registry.unshowable_of_mem_select hmem (.inl long)⟩, rfl⟩
    | false =>
      cases hticks : m.registry.pendingTasks.any (·.wait.hasLong) with
      | true =>
        obtain ⟨u, hu, long⟩ := List.any_eq_true.mp hticks
        exact .inr ⟨⟨traces, Registry.unshowable_of_mem_select hu
          (.inl (Registry.endsLong_of_wait long))⟩, rfl⟩
      | false => exact .inl ⟨_, rfl⟩
  · exact .inl ⟨m.trace, rfl⟩

theorem registry_of_noteBubbling {finished : List Task} {m' : Machine σ}
    (h : m.noteBubbling o finished = .ok m') : m'.registry = m.registry := by
  unfold noteBubbling at h
  split at h
  · split at h <;> cases h
    rfl
  · cases h
    rfl

theorem registry_of_noteUnblocking {batch : List Task} {m' : Machine σ}
    (h : m.noteUnblocking o batch = .ok m') : m'.registry = m.registry := by
  unfold noteUnblocking at h
  split at h
  · split at h <;> cases h
    rfl
  · cases h
    rfl

end Machine

theorem Outcome.report_of_writable {v : Value} (hv : v.hasLong = false) (m : Machine σ)
    (h : HarnessError) : report m v h = abort m h := by
  unfold report Value.checkLong
  rw [hv]
  rfl

/-- The run is given up with a report that shows a value, or that value is too long to be written.
-/
theorem Outcome.report_cases (m : Machine σ) (v : Value) (h : HarnessError) :
    report m v h = abort m h ∨ v.hasLong = true ∧ report m v h = raise m m.unwritable := by
  cases hlong : v.hasLong with
  | true => exact .inr ⟨rfl, by unfold report Value.checkLong; rw [hlong]; rfl⟩
  | false => exact .inl (report_of_writable hlong m h)

theorem Outcome.report_eq_abort {m : Machine σ} {v : Value} {h h' : HarnessError}
    (hc : (report m v h).control = .abort (.harness h')) : h = h' ∧ v.hasLong = false := by
  cases hlong : v.hasLong with
  | true =>
    unfold report Value.checkLong at hc
    rw [hlong] at hc
    cases hc
  | false =>
    rw [report_of_writable hlong] at hc
    exact ⟨Failure.harness.inj (Control.abort.inj hc), rfl⟩

/-- What cannot be reported is no reason to give up the run. -/
theorem Outcome.report_ne_exn (m : Machine σ) (v : Value) (h : HarnessError) (e : Exn) :
    (report m v h).control ≠ .abort (.exn e) := by
  rcases report_cases m v h with heq | ⟨_, heq⟩ <;> rw [heq] <;> exact nofun

/-- An interpretation counts a step. Then it fails, enters a generator, or interprets an effect. -/
theorem Machine.interpret_cases (w : World σ) (o : RunOptions) (m : Machine σ) (t : Nat)
    (effect : Value) (inComposite : Bool) :
    (∃ f, m.interpret w o t effect inComposite = .failure m.counted f) ∨
    (∃ g, effect = .generator g ∧
      m.interpret w o t effect inComposite = .answer m.counted (.enter g)) ∨
    ∃ e, effect = .effect e ∧
      m.interpret w o t effect inComposite = m.counted.interpretEffect w t e inComposite := by
  unfold interpret
  rcases Nat.lt_or_ge m.steps o.stepLimit with hlt | hle
  · rw [m.tick_of_lt hlt]
    dsimp only
    split
    · exact .inr (.inl ⟨_, rfl, rfl⟩)
    · exact .inr (.inr ⟨_, rfl, rfl⟩)
    · exact .inl ⟨_, rfl⟩
  · obtain ⟨f, heq, _⟩ := m.tick_of_le hle
    rw [heq]
    exact .inl ⟨f, rfl⟩

/-- An effect is interpreted once its step is counted, if that is not refused. -/
theorem Machine.interpret_effect_cases (m : Machine σ) (w : World σ) (o : RunOptions) (t : Nat)
    (e : Effect) (inComposite : Bool) :
    (∃ f, m.interpret w o t (.effect e) inComposite = .failure m.counted f) ∨
      m.interpret w o t (.effect e) inComposite = m.counted.interpretEffect w t e inComposite := by
  rcases m.interpret_cases w o t (.effect e) inComposite with ⟨f, heq⟩ | ⟨_, he, _⟩ | ⟨_, he, heq⟩
  · exact .inl ⟨f, heq⟩
  · cases he
  · cases he
    exact .inr heq

namespace Config

variable (o : RunOptions) (m : Machine σ) (stack : List Frame)

/-- What is being handled changes at the failure of a start, and nothing else. -/
theorem handling_eq (e : Exn) : ∃ handled, handling m e stack = { m with handled } := by
  unfold handling
  split
  · exact ⟨m.handled, rfl⟩
  · exact ⟨some e, rfl⟩

@[simp] theorem registry_handling (e : Exn) : (handling m e stack).registry = m.registry := by
  obtain ⟨handled, heq⟩ := handling_eq m stack e
  rw [heq]

@[simp] theorem steps_handling (e : Exn) : (handling m e stack).steps = m.steps := by
  obtain ⟨handled, heq⟩ := handling_eq m stack e
  rw [heq]

@[simp] theorem trace_handling (e : Exn) : (handling m e stack).trace = m.trace := by
  obtain ⟨handled, heq⟩ := handling_eq m stack e
  rw [heq]

@[simp] theorem outer_handling (e : Exn) : (handling m e stack).outer = m.outer := by
  obtain ⟨handled, heq⟩ := handling_eq m stack e
  rw [heq]

/-- The next step is counted. -/
def ticks (o : RunOptions) (c : Config σ) : Bool :=
  match c.control, c.stack with
  | .interpret .., _ => true
  | .done, .loop root :: _ => !settled o c.machine root
  | _, _ => false

/-- The next step is counted past the ceiling, and the tasks that are reported then wait for what is
too long to be written. -/
structure Unreportable (o : RunOptions) (c : Config σ) : Prop where
  ticks : c.ticks o = true
  past : o.stepLimit ≤ c.machine.steps
  long : c.machine.registry.waitsLong = true

/-- The count has passed its ceiling. -/
def Exceeded (o : RunOptions) (c : Config σ) : Prop := o.stepLimit < c.machine.steps

instance (o : RunOptions) (c : Config σ) : Decidable (c.Exceeded o) :=
  inferInstanceAs (Decidable (o.stepLimit < c.machine.steps))

def Unwritten (c : Config σ) : Prop := c.control = .abort (.exn c.machine.unwritable)

theorem unwritten_abort (m : Machine σ) (stack : List Frame) :
    (⟨m, stack, .abort (.exn m.unwritable)⟩ : Config σ).Unwritten := rfl

theorem Unwritten.step {c : Config σ} (h : c.Unwritten) (w : World σ) (o : RunOptions) :
    (c.step w o).Unwritten := by
  obtain ⟨m, stack, control⟩ := c
  obtain rfl : control = .abort (.exn m.unwritable) := h
  match stack with
  | .driving _ :: _ => rfl
  | [] | .member _ :: _ | .composite _ :: _ | .forked _ :: _ | .batch _ :: _ | .round _ _ :: _
  | .loop _ :: _ => rfl

/-- Within its ceiling the run is given up over a trace that cannot be written. -/
structure Untraced (o : RunOptions) (c : Config σ) : Prop where
  untraceable : c.machine.Untraceable o
  within : ¬ c.Exceeded o
  unwritten : c.Unwritten

/-- Where the ceiling of a run is passed, the report of that can be written. -/
def Legible (w : World σ) (o : RunOptions) (c : Config σ) : Prop :=
  ∀ n, ¬ (run w o n c).Unreportable o

/-- Bubbling begins with a look at the pending tasks, if anything has finished. -/
theorem bubble_cases (finished : List Nat) :
    finished = [] ∧ bubble o m stack finished = halt m stack ∨
    finished ≠ [] ∧
      ((∃ trace, bubble o m stack finished =
          halt { m with trace } (.round finished m.registry.pending :: stack)) ∨
        m.Untraceable o ∧ bubble o m stack finished = ⟨m, stack, .abort (.exn m.unwritable)⟩) := by
  cases finished with
  | nil => exact .inl ⟨rfl, rfl⟩
  | cons d ds =>
    refine .inr ⟨List.cons_ne_nil _ _, ?_⟩
    unfold bubble
    rcases m.noteBubbling_cases (o := o) (d :: ds) with ⟨trace, heq⟩ | ⟨long, heq⟩
    · exact .inl ⟨trace, by rw [heq]; rfl⟩
    · exact .inr ⟨long, by rw [heq]; rfl⟩

section Loop

variable {o : RunOptions} {m : Machine σ} {root : Nat}

theorem continueLoop_of_settled (h : settled o m root = true) :
    continueLoop o m root = halt m [] := by
  unfold continueLoop
  exact if_pos h

/-- A turn past the ceiling gives up the run. -/
theorem continueLoop_past (unsettled : settled o m root = false) (past : o.stepLimit ≤ m.steps) :
    ∃ f, m.tick o = (.error f, m.counted) ∧
      continueLoop o m root = ⟨m.counted, [.loop root], .abort f⟩ := by
  obtain ⟨f, htick, _⟩ := m.tick_of_le past
  refine ⟨f, htick, ?_⟩
  unfold continueLoop
  rw [unsettled, htick, if_neg Bool.false_ne_true]

/-- A turn that finds no task to go on with gives up the run. -/
theorem continueLoop_stuck (unsettled : settled o m root = false) (within : m.steps < o.stepLimit)
    (stuck : selectReadyBatch m.registry.pendingTasks = []) :
    continueLoop o m root = ⟨m.counted, [.loop root], .abort m.counted.deadlock⟩ := by
  have hstuck : selectReadyBatch m.counted.registry.pendingTasks = [] := stuck
  unfold continueLoop
  rw [unsettled, m.tick_of_lt within, if_neg Bool.false_ne_true]
  dsimp only
  rw [hstuck]
  rfl

/-- Otherwise the next batch is run, or it cannot be written which that is. -/
theorem continueLoop_of_ready (unsettled : settled o m root = false)
    (within : m.steps < o.stepLimit) (ready : selectReadyBatch m.registry.pendingTasks ≠ []) :
    (∃ trace, continueLoop o m root = halt { m.counted with trace }
      [.batch ((selectReadyBatch m.registry.pendingTasks).map (·.id)), .loop root]) ∨
      m.Untraceable o ∧
        continueLoop o m root = ⟨m.counted, [.loop root], .abort (.exn m.counted.unwritable)⟩ := by
  have hready : (selectReadyBatch m.counted.registry.pendingTasks).isEmpty = false :=
    Bool.eq_false_iff.mpr fun h => ready (List.isEmpty_iff.mp h)
  unfold continueLoop
  rw [unsettled, m.tick_of_lt within, if_neg Bool.false_ne_true]
  dsimp only
  rw [hready, if_neg Bool.false_ne_true]
  rcases m.counted.noteUnblocking_cases (o := o) with ⟨trace, heq⟩ | ⟨long, heq⟩
  · exact .inl ⟨trace, by rw [heq]; rfl⟩
  · exact .inr ⟨long, by rw [heq]⟩

/-- The main loop gives up a run over a report, or over one that cannot be written. -/
theorem continueLoop_unwritten {e : Exn} (h : (continueLoop o m root).control = .abort (.exn e)) :
    (continueLoop o m root).Unwritten := by
  cases unsettled : settled o m root with
  | true =>
    rw [continueLoop_of_settled unsettled] at h
    cases h
  | false =>
    rcases Nat.lt_or_ge m.steps o.stepLimit with within | past
    · by_cases stuck : selectReadyBatch m.registry.pendingTasks = []
      · rw [continueLoop_stuck unsettled within stuck] at h ⊢
        exact h.trans (by rw [m.counted.eq_of_stopped (Control.abort.inj h)])
      · rcases continueLoop_of_ready unsettled within stuck with ⟨trace, heq⟩ | ⟨_, heq⟩
        · rw [heq] at h
          cases h
        · rw [heq]
          exact unwritten_abort ..
    · obtain ⟨f, htick, hloop⟩ := continueLoop_past unsettled past
      rw [hloop] at h ⊢
      obtain rfl : f = .exn e := Control.abort.inj h
      exact h.trans (by rw [m.eq_of_tick htick])

end Loop

/-- The main loop ends, gives up the run, or goes on with the next batch. -/
theorem continueLoop_cases (root : Nat) :
    settled o m root = true ∧ continueLoop o m root = halt m [] ∨
    settled o m root = false ∧
      ((∃ f, continueLoop o m root = ⟨m.counted, [.loop root], .abort f⟩) ∨
        m.steps < o.stepLimit ∧ selectReadyBatch m.registry.pendingTasks ≠ [] ∧
        ∃ trace, continueLoop o m root = halt { m.counted with trace }
          [.batch ((selectReadyBatch m.registry.pendingTasks).map (·.id)), .loop root]) := by
  cases hs : settled o m root with
  | true => exact .inl ⟨rfl, continueLoop_of_settled hs⟩
  | false =>
    refine .inr ⟨rfl, ?_⟩
    rcases Nat.lt_or_ge m.steps o.stepLimit with hlt | hle
    · by_cases hready : selectReadyBatch m.registry.pendingTasks = []
      · exact .inl ⟨_, continueLoop_stuck hs hlt hready⟩
      · rcases continueLoop_of_ready hs hlt hready with hrun | ⟨_, hbalk⟩
        · exact .inr ⟨hlt, hready, hrun⟩
        · exact .inl ⟨_, hbalk⟩
    · obtain ⟨f, _, heq⟩ := continueLoop_past hs hle
      exact .inl ⟨f, heq⟩

end Config

end Rehearsal
