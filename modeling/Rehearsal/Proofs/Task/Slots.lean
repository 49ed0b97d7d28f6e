import Rehearsal.Task.Registry

/-!
# What slots wait for

A settled structure has its slots where they were, and waits for exactly those of its tasks that are
not over.
-/
namespace Rehearsal

namespace Registry

/-- Settling goes slot by slot. -/
theorem slots_settleFinished (r : Registry) (p : Pending) :
    (r.settleFinished p).slots = p.slots.map r.settleSlot := by
  cases p with
  | list ps => rfl
  | tuple ps => rfl
  | keyed frozen es =>
    simp only [settleFinished, Pending.mapSlots, Pending.slots, List.map_map]
    rfl
  | task id =>
    have hs : r.settleSlot (.task id) = .task id ∨
        ∃ v, r.settleSlot (.task id) = .completed v := by
      cases h : r.get? id with
      | none => exact Or.inl (by simp only [settleSlot, h])
      | some t =>
        cases hd : t.done with
        | true => exact Or.inr ⟨t.result, by simp only [settleSlot, h, hd, if_true]⟩
        | false => exact Or.inl (by simp only [settleSlot, h, hd, Bool.false_eq_true, if_false])
    show (r.settleSlot (.task id)).slots = [r.settleSlot (.task id)]
    rcases hs with hs | ⟨v, hs⟩ <;> rw [hs] <;> rfl
  | completed v => rfl
  | returned v => rfl
  | failed e => rfl
  | value v => rfl

/-- A slot that waits for a task is left as it was, and the task is not over. -/
theorem settleSlot_eq_task_iff {r : Registry} {slot : Pending} {d : Nat} :
    r.settleSlot slot = .task d ↔ slot = .task d ∧ r.isDone d = false := by
  cases slot with
  | task id =>
    cases h : r.get? id with
    | none =>
      simp only [settleSlot, h, Pending.task.injEq, iff_self_and]
      rintro rfl
      simp only [isDone, h]
    | some t =>
      cases hd : t.done with
      | false =>
        simp only [settleSlot, h, hd, Bool.false_eq_true, if_false,
          Pending.task.injEq, iff_self_and]
        rintro rfl
        simp only [isDone, h, hd]
      | true =>
        simp only [settleSlot, h, hd, if_true, reduceCtorEq, false_iff, Pending.task.injEq, not_and]
        rintro rfl
        simp only [isDone, h, hd, Bool.true_eq_false, not_false_eq_true]
  | _ => simp [settleSlot]

end Registry

namespace Pending

theorem mem_waitingOn {p : Pending} {d : Nat} : d ∈ p.waitingOn ↔ .task d ∈ p.slots := by
  unfold waitingOn
  rw [List.mem_filterMap]
  constructor
  · rintro ⟨slot, hm, hs⟩
    cases slot with
    | task id =>
      cases hs
      exact hm
    | _ => cases hs
  · exact fun hm => ⟨.task d, hm, rfl⟩

/-- A settled structure waits for what is not over. -/
theorem mem_waitingOn_settleFinished {r : Registry} {p : Pending} {d : Nat} :
    d ∈ (r.settleFinished p).waitingOn ↔ d ∈ p.waitingOn ∧ r.isDone d = false := by
  rw [mem_waitingOn, mem_waitingOn, Registry.slots_settleFinished, List.mem_map]
  constructor
  · rintro ⟨slot, hm, hs⟩
    obtain ⟨rfl, hd⟩ := Registry.settleSlot_eq_task_iff.mp hs
    exact ⟨hm, hd⟩
  · rintro ⟨hm, hd⟩
    exact ⟨.task d, hm, Registry.settleSlot_eq_task_iff.mpr ⟨rfl, hd⟩⟩

theorem waitingOn_of_slots_eq {p : Pending} {ids : List Nat} (h : p.slots = ids.map .task) :
    p.waitingOn = ids := by
  unfold waitingOn
  rw [h, List.filterMap_map]
  exact List.filterMap_some

/-- When as many tasks are waited for as there are slots, every slot waits. -/
theorem slots_eq_of_length_le {p : Pending} (h : p.slots.length ≤ p.waitingOn.length) :
    p.slots = p.waitingOn.map .task := by
  unfold waitingOn at h ⊢
  generalize p.slots = slots at h ⊢
  induction slots with
  | nil => rfl
  | cons slot slots ih =>
    have hle : (slots.filterMap awaited?).length ≤ slots.length := List.length_filterMap_le ..
    cases slot with
    | task id =>
      simp only [List.filterMap_cons, awaited?, List.length_cons, Nat.add_le_add_iff_right] at h
      simp only [List.filterMap_cons, awaited?, List.map_cons]
      rw [← ih h]
    | _ =>
      simp only [List.filterMap_cons, awaited?, List.length_cons] at h
      omega

/-- A join waits for its targets. -/
theorem waitingOn_ofTargets (targets : Targets) :
    (ofTargets targets).waitingOn = targets.markers.map (·.id) := by
  refine waitingOn_of_slots_eq ?_
  cases targets with
  | single m => rfl
  | listed _ ms =>
    simp only [ofTargets, slots, Targets.markers, List.map_map]
    rfl
  | keyed _ es =>
    simp only [ofTargets, slots, Targets.markers, List.map_map]
    rfl

end Pending

end Rehearsal
