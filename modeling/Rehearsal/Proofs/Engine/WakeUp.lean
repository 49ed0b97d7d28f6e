import Rehearsal.Proofs.Engine.Reachable

/-!
# No lost wake-up

Whenever the main loop asks whether it is done, every pending task has good reason to sleep: it has
not been started, or what it is blocked behind is unfinished. Nothing that is over has been missed,
and nothing that was answered waits to be taken up. A task is started once.
-/
namespace Rehearsal

variable {σ : Type}

/-- Task `d` is there and not over. -/
def Registry.Unfinished (r : Registry) (d : Nat) : Prop := ∃ u, r.get? d = some u ∧ u.done = false

def Registry.Unsatisfied (r : Registry) (t : Task) (i : Interruption) : Prop :=
  match i.kind with
  | .generator => ∃ d, i.dependencies = [d] ∧ r.Unfinished d
  | .join | .all => i.dependencies ≠ [] ∧ i.dependencies = i.pending.waitingOn ∧
      ∀ d ∈ i.dependencies, r.Unfinished d
  | .race => i.pending.slots ≠ [] ∧ ∀ slot ∈ i.pending.slots, ∃ d, slot = .task d ∧ r.Unfinished d
  | .children => t.children ≠ [] ∧ ∀ c ∈ t.children, r.Unfinished c

/-- No trace of a start. -/
structure Task.Unstarted (t : Task) : Prop where
  interruption : t.interruption = none
  children : t.children = []
  coroutine : t.coroutine = none

/-- Blocked by an interruption without an answer, with reason. -/
structure Task.Asleep (r : Registry) (t : Task) (i : Interruption) : Prop where
  interruption : t.interruption = some i
  unresolved : i.resolved = false
  wait : t.wait = .tier i.kind.tier
  unsatisfied : r.Unsatisfied t i

/-- Nothing in the registry waits to be woken. -/
structure Registry.Quiet (r : Registry) : Prop where
  reaped : r.finished = []
  idle : ∀ i t, r.get? i = some t → t.running = false
  pending : ∀ i ∈ r.pending, ∃ t, r.get? i = some t ∧ t.done = false ∧
    (t.Unstarted ∨ ∃ b, t.Asleep r b)

/-- The main loop is about to ask whether the run has come to its end. -/
def Config.AtLoop (c : Config σ) : Prop := c.control = .done ∧ ∃ root, c.stack = [.loop root]

/-- Task `t` has been started: its record shows it, or it is about to be driven or ended. -/
def Config.Started (c : Config σ) (t : Nat) : Prop :=
  (∃ u, c.machine.get? t = some u ∧ ¬ u.Fresh) ∨
    match c.control with
    | .drive i _ | .start i | .complete i _ | .fail i _ => i = t
    | _ => False

namespace Registry

variable {r : Registry} {news : List Nat} {t : Task}

theorem Hears.unfinished {d : Nat} (h : r.Hears [] d) : r.Unfinished d := by
  obtain ⟨u, hu, hd⟩ := h
  refine ⟨u, hu, ?_⟩
  cases hdone : u.done with
  | false => rfl
  | true => exact (List.not_mem_nil (hd hdone)).elim

/-- A task that waits, and has no news to come, waits with reason. -/
theorem unsatisfied_of_waiting {i : Interruption} (h : t.Waiting r [] i) : r.Unsatisfied t i := by
  have hs := h.awaits.shape
  have hh : ∀ d ∈ i.dependencies, r.Unfinished d := fun d hd => (h.hears d hd).unfinished
  have hne := h.awaits.nonempty
  unfold Unsatisfied
  cases hk : i.kind with
  | generator =>
    rw [hk] at hs
    obtain ⟨d, _, hdeps⟩ := hs
    exact ⟨d, hdeps, hh d (by simp [hdeps])⟩
  | join =>
    rw [hk] at hs
    exact ⟨hne, hs, hh⟩
  | all =>
    rw [hk] at hs
    exact ⟨hne, hs, hh⟩
  | race =>
    rw [hk] at hs
    rw [hs]
    refine ⟨by simpa using hne, fun slot hslot => ?_⟩
    obtain ⟨d, hd, rfl⟩ := List.mem_map.mp hslot
    exact ⟨d, rfl, hh d hd⟩
  | children =>
    rw [hk] at hs
    exact hs.elim

/-- A registry over which nothing is going on, with nothing left to hear of, is quiet. -/
theorem quiet_of_core {begun : Nat → Prop} {root : Nat} (core : Core begun r [] [.loop root] none)
    (heard : r.finished = []) : r.Quiet := by
  have hnews : ∀ i, Rehearsal.news r [] [.loop root] i = [] := by
    intro i
    simp [Rehearsal.news, Frame.tells, heard]
  have hidle : ∀ i t, r.get? i = some t → t.running = false := by
    intro i t ht
    cases hr : t.running with
    | false => rfl
    | true => exact (List.not_mem_nil ((core.running_iff ht).mp hr)).elim
  refine ⟨heard, hidle, fun i hi => ?_⟩
  obtain ⟨t, ht, hd⟩ := core.forest.mem_pending.mp hi
  have hst := core.stands ht
  rw [hnews] at hst
  refine ⟨t, ht, hd, ?_⟩
  cases hst with
  | ended hd' _ => exact (Bool.false_ne_true (hd.symm.trans hd')).elim
  | fresh h => exact Or.inl ⟨h.interruption, h.children, h.coroutine⟩
  | active _ hr => exact (Bool.false_ne_true ((hidle i t ht).symm.trans hr)).elim
  | waiting b h =>
    refine Or.inr ⟨b, h.interruption, ?_, h.tier, unsatisfied_of_waiting h⟩
    rw [Interruption.resolved, h.unanswered]
    rfl
  | holding b h =>
    refine Or.inr ⟨b, h.interruption, ?_, h.tier, ?_⟩
    · rw [Interruption.resolved, h.unanswered]
      rfl
    · rw [Unsatisfied, h.kind]
      refine ⟨h.children, fun c hc => Hears.unfinished ?_⟩
      exact hnews i ▸ core.hears ht c hc

end Registry

namespace Config

theorem Sound.quiet {begun : Nat → Prop} {c : Config σ} (h : c.Sound begun) (hl : c.AtLoop) :
    c.machine.registry.Quiet := by
  obtain ⟨m, stack, control⟩ := c
  obtain ⟨rfl, root, rfl⟩ := hl
  cases h with
  | resting _ nested => exact (Nested.ne_loop nested).elim
  | looking core heard => exact Registry.quiet_of_core core heard

/-- What has been started, but for a start still to come about, may be counted as begun. -/
theorem Sound.counted {begun : Nat → Prop} {c : Config σ} (h : c.Sound begun) :
    c.Sound fun t => c.Started t ∧ c.control ≠ .start t := by
  obtain ⟨m, stack, control⟩ := c
  have hfresh : ∀ subject i, (∃ u, m.get? i = some u ∧ ¬ u.Fresh) →
      ∃ u, m.registry.get? i = some u ∧ (subject = some i ∨ ¬ u.Fresh) := by
    rintro subject i ⟨u, hu, hf⟩
    exact ⟨u, hu, Or.inr hf⟩
  cases h with
  | resting core nested =>
    exact .resting (core.recount fun i hi => hfresh none i (hi.1.resolve_right id)) nested
  | looking core heard =>
    exact .looking (core.recount fun i hi => hfresh none i (hi.1.resolve_right id)) heard
  | settled forest root => exact .settled forest root
  | raised e core nested =>
    exact .raised e (core.recount fun i hi => hfresh none i (hi.1.resolve_right id)) nested
  | answered core nested stands =>
    exact .answered (core.recount fun i hi => hfresh none i (hi.1.resolve_right id)) nested stands
  | interpreting effect inComposite core nested =>
    exact .interpreting effect inComposite
      (core.recount fun i hi => hfresh none i (hi.1.resolve_right id)) nested
  | propagating e core nested task parent =>
    exact .propagating e
      (core.recount fun i hi => hfresh none i (hi.1.resolve_right id)) nested task
      parent
  | bubbling core heard ended =>
    exact .bubbling (core.recount fun i hi => hfresh none i (hi.1.resolve_right id)) heard ended
  | aborted f forest => exact .aborted f forest
  | driving core nested task poised =>
    refine .driving (core.recount ?_) nested task poised
    rintro i ⟨hi | rfl, _⟩
    · exact hfresh _ i hi
    · exact ⟨_, task, Or.inl rfl⟩
  | completing v core nested task free stopped =>
    refine .completing v (core.recount ?_) nested task free stopped
    rintro i ⟨hi | rfl, _⟩
    · exact hfresh _ i hi
    · exact ⟨_, task, Or.inl rfl⟩
  | failing e core nested task free stopped =>
    refine .failing e (core.recount ?_) nested task free stopped
    rintro i ⟨hi | rfl, _⟩
    · exact hfresh _ i hi
    · exact ⟨_, task, Or.inl rfl⟩
  | @selected t u _ core nested task ready =>
    refine .selected (core.recount fun i hi => hfresh _ i (hi.1.resolve_right id)) nested task
      (ready.imp_left fun h => ⟨h.1, ?_⟩)
    rintro ⟨⟨v, hv, hf⟩ | hf, _⟩
    · rw [show m.get? t = some u from task, Option.some.injEq] at hv
      exact hf (hv ▸ h.1)
    · exact hf
  | starting core nested task fresh first =>
    refine .starting (core.recount ?_) nested task fresh fun h => h.2 rfl
    rintro i ⟨hi | rfl, _⟩
    · exact hfresh _ i hi
    · exact ⟨_, task, Or.inl rfl⟩

/-- What has been started is not started again. -/
theorem start_ne_of_started (w : World σ) (o : RunOptions) {begun : Nat → Prop}
    {c : Config σ} {t : Nat}
    (h : c.Sound begun) (ht : c.Started t) (n : Nat) :
    (run w o (n + 1) c).control ≠ .start t := by
  intro hn
  rw [run] at hn
  split at hn
  · rename_i hf
    rw [isFinal, hn] at hf
    simp at hf
  · -- the step from `c` may be the start of `t` itself, and from then on `t` has begun
    obtain ⟨begun', hle, hs⟩ := sound_run w o (sound_step w o (Sound.counted h)) n
    have hb : begun' t := by
      refine hle t ?_
      by_cases he : c.control = .start t
      · rw [he]
        exact Or.inr rfl
      · exact Or.inl ⟨ht, he⟩
    generalize run w o n (c.step w o) = d at hn hs
    obtain ⟨m, stack, control⟩ := d
    obtain rfl : control = .start t := hn
    cases hs with
    | starting _ _ _ _ first => exact first hb

end Config

/-- **No lost wake-up.** Every time the main loop of a run asks whether it is done, the registry is
quiet; and no task that has been started before is ever started again. -/
theorem no_lost_wake_up (w : World σ) (o : RunOptions) (outer : σ) (name : String) (g : Nat) :
    (∀ n, (Config.run w o n (Config.launched outer name g)).AtLoop →
      (Config.run w o n (Config.launched outer name g)).machine.registry.Quiet) ∧
    ∀ k n t, k < n → (Config.run w o k (Config.launched outer name g)).Started t →
      (Config.run w o n (Config.launched outer name g)).control ≠ .start t := by
  refine ⟨fun n hl => ?_, fun k n t hkn ht => ?_⟩
  · obtain ⟨begun, h⟩ := Config.sound_reached w o outer name g n
    exact Config.Sound.quiet h hl
  · obtain ⟨begun, h⟩ := Config.sound_reached w o outer name g k
    obtain ⟨d, rfl⟩ := Nat.exists_eq_add_of_lt hkn
    rw [Nat.add_assoc, Config.run_add]
    exact Config.start_ne_of_started w o h ht d

/-- The root waits for a delay. -/
def Playbook.delayed : Playbook where
  responses g := if g = 0 then [.yielded (.effect (.delay 1))] else []
  plans := []

theorem quiet_while_delayed :
    (Playbook.delayed.played 5).AtLoop ∧ (Playbook.delayed.played 5).machine.registry.Quiet ∧
      (Playbook.delayed.played 8).Started 1 ∧ (Playbook.delayed.played 13).control ≠ .start 1 := by
  obtain ⟨hquiet, honce⟩ := no_lost_wake_up Playbook.world .default Playbook.delayed "root" 0
  have hloop : (Playbook.delayed.played 5).AtLoop := ⟨rfl, 0, rfl⟩
  have hstarted : (Playbook.delayed.played 8).Started 1 := Or.inr rfl
  exact ⟨hloop, hquiet 5 hloop, hstarted, honce 8 13 1 (by decide) hstarted⟩

end Rehearsal
