import Rehearsal.Proofs.Task.Lookup
import Rehearsal.Task.Dump

/-!
# Reports on tasks

A report is refused where it has to show a number too long to be written. Besides values these are
the ticks of tasks, and of the tasks in a structure nothing else counts.
-/
namespace Rehearsal

namespace Registry

variable {r : Registry} {header : String}

theorem dump_of_waitsLong (h : r.waitsLong = true) : r.dump header = .error (longRefusal none) := by
  unfold dump
  rw [h]
  rfl

theorem dump_of_writable (h : r.waitsLong = false) :
    r.dump header = .ok ⟨header, r.pendingTasks.map (r.dumpEntry r.pendingTasks)⟩ := by
  unfold dump
  rw [h]
  rfl

/-- What a dump that is written lists. -/
theorem eq_of_dump {d : TaskDump} (h : r.dump header = .ok d) :
    d = ⟨header, r.pendingTasks.map (r.dumpEntry r.pendingTasks)⟩ := by
  cases hlong : r.waitsLong with
  | true =>
    rw [dump_of_waitsLong hlong] at h
    cases h
  | false =>
    rw [dump_of_writable hlong] at h
    cases h
    rfl

/-- A block of diagnostics on some of the tasks has to show a number that is too long. -/
def Unshowable (r : Registry) : Prop :=
  ∃ t u, r.get? t = some u ∧ (r.endsLong u = true ∨ r.awaitsLong u = true)

theorem unshowable_of_mem_select {ids : List Nat} {u : Task} (hu : u ∈ r.select ids)
    (long : r.endsLong u = true ∨ r.awaitsLong u = true) : r.Unshowable := by
  obtain ⟨t, _, ht⟩ := List.mem_filterMap.mp hu
  exact ⟨t, u, ht, long⟩

theorem endsLong_of_wait {u : Task} (h : u.wait.hasLong = true) : r.endsLong u = true := by
  unfold endsLong
  rw [h, Bool.true_or]

/-! ### What has to be shown -/

section

variable {r' : Registry}

mutual

/-- What is shown of a structure are values and the ticks of tasks. -/
theorem showsLong_congr (h : ∀ id, r'.hasLongTick id = r.hasLongTick id) :
    (p : Pending) → r'.showsLong p = r.showsLong p
  | .task id => h id
  | .completed _ | .returned _ | .value _ | .failed _ => rfl
  | .list ps | .tuple ps => anyShowsLong_congr h ps
  | .keyed _ es => anyEntryShowsLong_congr h es

theorem anyShowsLong_congr (h : ∀ id, r'.hasLongTick id = r.hasLongTick id) :
    (ps : List Pending) → r'.anyShowsLong ps = r.anyShowsLong ps
  | [] => rfl
  | p :: ps => by rw [anyShowsLong, anyShowsLong, showsLong_congr h p, anyShowsLong_congr h ps]

theorem anyEntryShowsLong_congr (h : ∀ id, r'.hasLongTick id = r.hasLongTick id) :
    (es : List (Value × Pending)) → r'.anyEntryShowsLong es = r.anyEntryShowsLong es
  | [] => rfl
  | e :: es => by
    rw [anyEntryShowsLong, anyEntryShowsLong, showsLong_congr h e.2, anyEntryShowsLong_congr h es]

end

theorem awaitsLong_congr (h : ∀ id, r'.hasLongTick id = r.hasLongTick id) {t t' : Task}
    (hi : t'.interruption = t.interruption) : r'.awaitsLong t' = r.awaitsLong t := by
  unfold awaitsLong
  rw [hi]
  simp only [showsLong_congr h]

end

/-- What waits for a number too long to be written still does when tasks keep their wait states and
what they wait for. -/
theorem waitsLong_modify (r : Registry) (t : Nat) {f : Task → Task}
    (hf : ∀ u, (f u).interruption = u.interruption ∧ (f u).wait = u.wait) :
    (r.modify t f).waitsLong = r.waitsLong := by
  have hticks : ∀ id, (r.modify t f).hasLongTick id = r.hasLongTick id := by
    intro id
    unfold hasLongTick
    rw [get?_modify]
    split
    · cases r.get? id with
      | none => rfl
      | some u => exact congrArg Wait.hasLong (hf u).2
    · rfl
  unfold waitsLong pendingTasks select
  rw [List.any_filterMap, List.any_filterMap]
  refine congrArg (List.any r.pending) (funext fun i => ?_)
  by_cases hi : i = t
  · subst hi
    rw [get?_modify_self]
    cases r.get? i with
    | none => rfl
    | some u => exact awaitsLong_congr hticks (hf u).1
  · rw [get?_modify_ne hi]
    cases r.get? i with
    | none => rfl
    | some u => exact awaitsLong_congr hticks rfl

end Registry

end Rehearsal
