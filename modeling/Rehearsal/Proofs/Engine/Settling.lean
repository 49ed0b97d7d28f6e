import Rehearsal.Proofs.Task.Slots
import Rehearsal.Proofs.Task.Standing
import Rehearsal.Engine.Settle

/-!
# What a round makes of an interruption

A blocked task whose turn it is has heard of everything over but what its round tells. Settling its
interruption against that either answers it, and lets go of the members that lost a race, or leaves
the task blocked behind tasks of which the round had nothing to tell.
-/
namespace Rehearsal.Registry

variable {r : Registry} {news ids : List Nat} {t : Nat} {u : Task} {i : Interruption}

/-- How the interruption `i` of task `t` comes out of a round. -/
inductive Settled (r : Registry) (ids : List Nat) (t : Nat) (i : Interruption) :
    Bool → Interruption → Registry → Prop
  | answered {a : Pending} {i' : Interruption} {r' : Registry} (kind : i'.kind = i.kind)
      (answer : i'.answer = some a)
      (flagged : Flagged r r' fun d => ∃ v, r.get? d = some v ∧ v.parent = some t) :
      Settled r ids t i true i' r'
  | left {i' : Interruption} (kind : i'.kind = i.kind) (awaits : r.Awaits t i')
      (still : ∀ d ∈ i'.dependencies, d ∈ i.dependencies ∧ (d ∈ ids → r.isDone d = false))
      (dropped : ∀ d ∈ i.dependencies, d ∉ i'.dependencies → r.isDone d = true) :
      Settled r ids t i false i' r

namespace Settled

theorem untouched (h : r.Awaits t i) (hn : ∀ d ∈ i.dependencies, d ∉ ids) :
    Settled r ids t i false i r :=
  .left rfl h (fun d hd => ⟨hd, fun hm => (hn d hd hm).elim⟩) fun _ hd hn => (hn hd).elim

theorem plain {a : Pending} {i' : Interruption} (hk : i'.kind = i.kind) (ha : i'.answer = some a) :
    Settled r ids t i true i' r := .answered hk ha (.refl _ _)

end Settled

/-- A call, a deferral or a delay is answered by the result of the task that was made for it. -/
theorem settle_generator (h : r.Awaits t i) (hk : i.kind = .generator)
    (hx : ∀ d ∈ i.dependencies, ∃ v, r.get? d = some v) :
    ∃ ok i' r', r.settle t i ids = .ok (ok, i', r') ∧ Settled r ids t i ok i' r' := by
  have hs := h.shape
  rw [hk] at hs
  obtain ⟨d, _, hdeps⟩ := hs
  simp only [settle, hk, hdeps]
  split
  · obtain ⟨v, hv⟩ := hx d (by simp [hdeps])
    simp only [hv]
    exact ⟨_, _, _, rfl, .plain rfl rfl⟩
  · rename_i hn
    refine ⟨_, _, _, rfl, .untouched h fun x hx => ?_⟩
    rw [hdeps, List.mem_singleton] at hx
    subst hx
    simpa using hn

/-- Joins and gathers are settled alike. -/
theorem settle_gathering (hk : i.kind = .join ∨ i.kind = .all) :
    r.settle t i ids =
      if i.dependencies.any ids.contains then
        if (r.settleFinished i.pending).waitingOn.isEmpty then
          .ok (true, { i with pending := r.settleFinished i.pending,
                              dependencies := (r.settleFinished i.pending).waitingOn }.resolve
            (.value (r.settleFinished i.pending).unwrap), r)
        else .ok (false, { i with pending := r.settleFinished i.pending,
                                  dependencies := (r.settleFinished i.pending).waitingOn }, r)
      else .ok (false, i, r) := by
  rcases hk with hk | hk <;> simp only [settle, hk]

/-- A join or a gather fills in what is over, and waits on for the rest. -/
theorem settle_all (h : r.Awaits t i) (hk : i.kind = .join ∨ i.kind = .all) :
    ∃ ok i' r', r.settle t i ids = .ok (ok, i', r') ∧ Settled r ids t i ok i' r' := by
  have hdeps : i.dependencies = i.pending.waitingOn := by
    have hs := h.shape
    rcases hk with hk | hk <;> rw [hk] at hs <;> exact hs
  rw [settle_gathering hk]
  split
  · split
    · exact ⟨_, _, _, rfl, .plain rfl rfl⟩
    · rename_i hne
      have hleft : ∀ d ∈ (r.settleFinished i.pending).waitingOn,
          d ∈ i.dependencies ∧ r.isDone d = false := by
        intro d hd
        obtain ⟨hm, hdone⟩ := Pending.mem_waitingOn_settleFinished.mp hd
        exact ⟨hdeps ▸ hm, hdone⟩
      refine ⟨_, _, _, rfl, .left rfl ⟨?_, h.unanswered, ?_, ?_⟩ (fun d hd => ?_) fun d hd hn => ?_⟩
      · simpa using hne
      · rcases hk with hk | hk <;> rw [hk]
      · exact fun hj d hd => h.owned hj d (hleft d hd).1
      · exact ⟨(hleft d hd).1, fun _ => (hleft d hd).2⟩
      · by_contra hdone
        refine hn (Pending.mem_waitingOn_settleFinished.mpr ⟨hdeps ▸ hd, ?_⟩)
        simpa using hdone
  · rename_i hn
    refine ⟨_, _, _, rfl, .untouched h fun d hd hm => hn ?_⟩
    exact List.any_eq_true.mpr ⟨d, hd, List.contains_iff_mem.mpr hm⟩

/-- Members of `t` that are not over are let go one by one. -/
theorem letGoLosers_flagged (losers : List Nat) (hl : ∀ l ∈ losers, r.Owned t l) :
    Flagged r (losers.foldl (fun r l => if r.isDone l then r else r.letGo l) r)
      fun d => ∃ v, r.get? d = some v ∧ v.parent = some t := by
  refine Flagged.foldl losers fun r' _ l hm => ?_
  split
  · exact .refl _ _
  · refine (letGo_flagged r' l).mono ?_
    rintro d rfl
    obtain ⟨v, hv, hp, _⟩ := hl d hm
    exact ⟨v, hv, hp⟩

/-- A race is decided by the first member that the round tells of. -/
theorem settle_race (h : r.Awaits t i) (hk : i.kind = .race) :
    ∃ ok i' r', r.settle t i ids = .ok (ok, i', r') ∧ Settled r ids t i ok i' r' := by
  have hdeps : i.pending.waitingOn = i.dependencies := by
    have hs := h.shape
    rw [hk] at hs
    exact Pending.waitingOn_of_slots_eq hs
  simp only [settle, hk]
  cases hw : i.pending.waitingOn.find? ids.contains with
  | none =>
    refine ⟨_, _, _, rfl, .untouched h fun d hd hm => ?_⟩
    rw [hdeps] at hw
    exact List.find?_eq_none.mp hw d hd (List.contains_iff_mem.mpr hm)
  | some winner =>
    refine ⟨_, _, _, rfl, .answered hk.symm rfl (letGoLosers_flagged _ fun l hl => ?_)⟩
    refine h.owned (by rw [hk]; decide) l ?_
    rw [← hdeps]
    exact (List.mem_filter.mp hl).1

/-- The interruption of a task that waits is settled without fail. -/
theorem settle_waiting (ids : List Nat) (h : u.Waiting r news i) (hid : u.id = t)
    (hk : i.kind ≠ .children) :
    ∃ ok i' r', r.settle t i ids = .ok (ok, i', r') ∧ Settled r ids t i ok i' r' := by
  subst hid
  cases hki : i.kind with
  | generator =>
    refine settle_generator h.awaits hki fun d hd => ?_
    obtain ⟨v, hv, _⟩ := h.hears d hd
    exact ⟨v, hv⟩
  | join => exact settle_all h.awaits (Or.inl hki)
  | race => exact settle_race h.awaits hki
  | all => exact settle_all h.awaits (Or.inr hki)
  | children => exact (hk hki).elim

/-- A task that waits for its children is answered when none is left. -/
theorem settle_children (hu : r.get? t = some u) (hk : i.kind = .children) (ids : List Nat) :
    r.settle t i ids = .ok (if u.children = [] then (true, i.resolve i.pending, r)
      else (false, i, r)) := by
  simp only [settle, hk, hu]
  cases u.children with
  | nil => rfl
  | cons c cs => rfl

end Rehearsal.Registry
