import Rehearsal.Proofs.Task.Lookup
import Rehearsal.Proofs.Task.Slots

/-!
# Results in the shape of a request

What a settled structure holds is read off the tasks that are over. Tasks that are over keep their
results, so it does not matter in how many rounds a structure was settled, nor how much was over
when it was settled first.
-/
namespace Rehearsal

/-- Only what `f` makes of the slots matters. -/
theorem Pending.mapSlots_congr {f g : Pending → Pending} {p : Pending}
    (h : ∀ slot ∈ p.slots, f slot = g slot) :
    p.mapSlots f = p.mapSlots g := by
  cases p with
  | list ps => exact congrArg list (List.map_congr_left h)
  | tuple ps => exact congrArg list (List.map_congr_left h)
  | keyed frozen es =>
    refine congrArg (keyed false) (List.map_congr_left fun e he => ?_)
    rw [h e.2 (List.mem_map_of_mem he)]
  | _ => exact h _ (List.mem_singleton.mpr rfl)

namespace Registry

variable {r r' : Registry} {d : Nat} {u : Task}

/-! ### What is over stays over -/

def Keeps (r r' : Registry) : Prop :=
  ∀ d u, r.get? d = some u → u.done = true →
    ∃ u', r'.get? d = some u' ∧ u'.done = true ∧ u'.result = u.result

protected theorem Keeps.refl (r : Registry) : r.Keeps r := fun _ u hu hd => ⟨u, hu, hd, rfl⟩

protected theorem Keeps.trans {r'' : Registry} (h : r.Keeps r') (h' : r'.Keeps r'') :
    r.Keeps r'' := by
  intro d u hu hd
  obtain ⟨u', hu', hd', he⟩ := h d u hu hd
  obtain ⟨u'', hu'', hd'', he'⟩ := h' d u' hu' hd'
  exact ⟨u'', hu'', hd'', he'.trans he⟩

theorem Keeps.modify (r : Registry) (t : Nat) (f : Task → Task) (hd : ∀ u, (f u).done = u.done)
    (hr : ∀ u, (f u).result = u.result) : r.Keeps (r.modify t f) := by
  intro d u hu hdone
  by_cases hdt : d = t
  · subst hdt
    exact ⟨_, get?_modify_of_eq_some f hu, (hd u).trans hdone, hr u⟩
  · exact ⟨u, by rw [get?_modify_ne hdt]; exact hu, hdone, rfl⟩

theorem Flagged.keeps {gone : Nat → Prop} (h : Flagged r r' gone) : r.Keeps r' := by
  intro d u hu hd
  obtain ⟨a, b, hu', _⟩ := h.eq_some hu
  exact ⟨_, hu', hd, rfl⟩

theorem Keeps.isDone (h : r.Keeps r') (hd : r.isDone d = true) : r'.isDone d = true := by
  obtain ⟨u, hu, hdone⟩ := isDone_iff.mp hd
  obtain ⟨u', hu', hdone', _⟩ := h d u hu hdone
  exact isDone_iff.mpr ⟨u', hu', hdone'⟩

/-! ### Results -/

/-- What task `d` has come to. -/
def resultOf (r : Registry) (d : Nat) : Value :=
  match r.get? d with
  | some u => u.result
  | none => .null

theorem Keeps.resultOf (h : r.Keeps r') (hd : r.isDone d = true) :
    r'.resultOf d = r.resultOf d := by
  obtain ⟨u, hu, hdone⟩ := isDone_iff.mp hd
  obtain ⟨u', hu', _, he⟩ := h d u hu hdone
  simp only [Registry.resultOf, hu, hu', he]

theorem settleSlot_of_done (hd : r.isDone d = true) :
    r.settleSlot (.task d) = .completed (r.resultOf d) := by
  obtain ⟨u, hu, hdone⟩ := isDone_iff.mp hd
  simp only [settleSlot, Registry.resultOf, hu, hdone, if_true]

theorem settleSlot_of_not_done (hd : r.isDone d = false) : r.settleSlot (.task d) = .task d :=
  settleSlot_eq_task_iff.mpr ⟨rfl, hd⟩

theorem slotValue_settleSlot (hd : r.isDone d = true) :
    (r.settleSlot (.task d)).slotValue = r.resultOf d := by
  rw [settleSlot_of_done hd]
  rfl

/-- Settling a slot again is settling it once, with what is over by then. -/
theorem Keeps.settleSlot (h : r.Keeps r') (slot : Pending) :
    r'.settleSlot (r.settleSlot slot) = r'.settleSlot slot := by
  cases slot with
  | task d =>
    cases hd : r.isDone d with
    | true =>
      rw [settleSlot_of_done hd, settleSlot_of_done (h.isDone hd), h.resultOf hd]
      rfl
    | false => rw [settleSlot_of_not_done hd]
  | _ => rfl

/-- What does not tell a settled slot from the slot that it was does not tell the structures apart
either. -/
theorem mapSlots_settleFinished {g : Pending → Pending}
    (hg : ∀ slot, g (r.settleSlot slot) = g slot)
    (p : Pending) : (r.settleFinished p).mapSlots g = p.mapSlots g := by
  have hmap : ∀ ps : List Pending, (ps.map r.settleSlot).map g = ps.map g := by
    intro ps
    rw [List.map_map]
    exact List.map_congr_left fun slot _ => hg slot
  cases p with
  | list ps => exact congrArg Pending.list (hmap ps)
  | tuple ps => exact congrArg Pending.list (hmap ps)
  | keyed frozen es =>
    refine congrArg (Pending.keyed false) ?_
    rw [List.map_map]
    refine List.map_congr_left fun e _ => ?_
    exact congrArg (e.1, ·) (hg e.2)
  | task d =>
    show (r.settleSlot (.task d)).mapSlots g = g (.task d)
    rw [← hg]
    cases hd : r.isDone d with
    | true =>
      rw [settleSlot_of_done hd]
      rfl
    | false =>
      rw [settleSlot_of_not_done hd]
      rfl
  | _ => rfl

/-- Rounds do not show: settling a structure again is settling it once, with what is over by then.
-/
theorem Keeps.settleFinished (h : r.Keeps r') (p : Pending) :
    r'.settleFinished (r.settleFinished p) = r'.settleFinished p :=
  mapSlots_settleFinished h.settleSlot p

/-! ### Structures that wait for nothing more -/

variable {p : Pending}

/-- What a structure waited for is over once it waits for nothing. -/
theorem isDone_of_settled (hn : (r.settleFinished p).waitingOn = []) (hd : d ∈ p.waitingOn) :
    r.isDone d = true := by
  cases hopen : r.isDone d with
  | true => rfl
  | false =>
    have hmem := Pending.mem_waitingOn_settleFinished.mpr ⟨hd, hopen⟩
    rw [hn] at hmem
    cases hmem

/-- A structure that waits for nothing is settled for good. -/
theorem Keeps.settled (h : r.Keeps r') (hn : (r.settleFinished p).waitingOn = []) :
    r'.settleFinished p = r.settleFinished p := by
  refine Pending.mapSlots_congr fun slot hslot => ?_
  cases slot with
  | task d =>
    have hd := isDone_of_settled hn (Pending.mem_waitingOn.mpr hslot)
    rw [settleSlot_of_done hd, settleSlot_of_done (h.isDone hd), h.resultOf hd]
  | _ => rfl

end Registry

def Targets.results (r : Registry) : Targets → Value
  | .single m => r.resultOf m.id
  | .listed _ ms => .list (ms.map fun m => r.resultOf m.id)
  | .keyed _ es => .dict ⟨false, es.map fun e => (e.1, r.resultOf e.2.id)⟩

def Members.values : Members → List Value
  | .listed xs => xs
  | .keyed m => m.entries.map (·.2)

/-- The results of the placeholders that stand for the members of a race or gather, in the shape in
which the members were given. -/
def Members.results (r : Registry) (placeholders : List Nat) : Members → Value
  | .listed _ => .list (placeholders.map r.resultOf)
  | .keyed m => .dict ⟨false, (m.entries.map (·.1)).zip (placeholders.map r.resultOf)⟩

/-- A join that waits for nothing has the results of its targets. -/
theorem Registry.unwrap_ofTargets {r : Registry} {targets : Targets}
    (hn : (r.settleFinished (.ofTargets targets)).waitingOn = []) :
    (r.settleFinished (.ofTargets targets)).unwrap = targets.results r := by
  have hvalue : ∀ m ∈ targets.markers, (r.settleSlot (.task m.id)).slotValue = r.resultOf m.id := by
    intro m hm
    refine slotValue_settleSlot (isDone_of_settled hn ?_)
    rw [Pending.waitingOn_ofTargets]
    exact List.mem_map_of_mem hm
  cases targets with
  | single m =>
    show (r.settleSlot (.task m.id)).unwrap = _
    rw [settleSlot_of_done (isDone_of_settled hn (List.mem_singleton.mpr rfl))]
    rfl
  | listed asTuple ms =>
    refine congrArg Value.list ?_
    rw [List.map_map, List.map_map]
    exact List.map_congr_left hvalue
  | keyed frozen es =>
    refine congrArg (fun entries => Value.dict ⟨false, entries⟩) ?_
    rw [List.map_map, List.map_map]
    exact List.map_congr_left fun e he => congrArg (e.1, ·) (hvalue e.2 (List.mem_map_of_mem he))

end Rehearsal
