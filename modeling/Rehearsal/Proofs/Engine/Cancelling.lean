import Rehearsal.Proofs.Engine.Regular
import Rehearsal.Proofs.Task.Subtree

/-!
# What cancelling reaches

Two relations say who owns whom: the children that a task still has to wait for, along which
cancelling walks, and the parent links, which are never taken back. The first is part of the second,
and on what is unfinished the two agree. So cancelling reaches every unfinished task below its
targets, and nothing that is not below one of them; in particular nothing that is detached, or that
is only waited for.
-/
namespace Rehearsal

open Relation (ReflTransGen)

variable {σ : Type}

namespace Registry

/-- What cancelling `targets` does to the tasks of `r`, and what it leaves alone. -/
structure CancelsOwned (r : Registry) (targets : List Nat) : Prop where
  /-- The walks end, and each lists what its target owned when cancelling began. -/
  ends : (∀ a ∈ targets, ∃ t, r.get? a = some t) →
    r.Cancels targets (targets.map r.subtree) (r.cancelAll targets)
  listed : ∀ a i, i ∈ r.subtree a ↔ (∃ t, r.get? a = some t) ∧ ReflTransGen r.Owns a i
  once : ∀ a, (r.subtree a).Nodup
  owner_first : ∀ a before i after, r.subtree a = before ++ i :: after →
    (i = a ∧ before = []) ∨ ∃ p ∈ before, r.Owns p i
  flagged : ∀ i t, r.get? i = some t → (∃ a ∈ targets, ReflTransGen r.Owns a i) →
    (r.cancelAll targets).get? i = some { t with cancelled := true }
  spared : ∀ i, (¬ ∃ a ∈ targets, ReflTransGen r.Owns a i) → (r.cancelAll targets).get? i = r.get? i
  queues : (r.cancelAll targets).pending = r.pending ∧ (r.cancelAll targets).finished = r.finished
  /-- Whatever is unfinished and has a target above it is reached. -/
  unfinished : ∀ a i t, r.get? i = some t → t.done = false → r.Descends a i →
    ReflTransGen r.Owns a i
  /-- Whatever is reached is a target or has one above it. -/
  structural : ∀ a i, ReflTransGen r.Owns a i → i = a ∨ r.Descends a i
  /-- So who is no target and has none above it is left alone, whoever waits for it. -/
  aside : ∀ i, i ∉ targets → (∀ a ∈ targets, ¬ r.Descends a i) →
    (r.cancelAll targets).get? i = r.get? i
  /-- Detached tasks have nobody above them, whoever made them. -/
  detached : ∀ a i t, r.get? i = some t → t.detached = true → ¬ r.Descends a i
  /-- A task made later is not cancelled, whoever owns it. -/
  later : ∀ name wait parent detached coroutine entry, (∀ p, parent = some p → p < r.size) →
    ∃ t, ((r.cancelAll targets).create name wait parent detached coroutine entry).1.get? r.size =
      some t ∧
      t.cancelled = false

variable {r : Registry} {a i : Nat} {targets : List Nat}

/-- Who is below anybody has a parent. -/
theorem Descends.exists_parent (h : r.Descends a i) :
    ∃ t p, r.get? i = some t ∧ t.parent = some p := by
  cases h with
  | child task parent => exact ⟨_, _, task, parent⟩
  | deeper task parent _ => exact ⟨_, _, task, parent⟩

namespace Forest

variable (forest : r.Forest)
include forest

/-- Children lie below. -/
theorem descends_of_owns (h : ReflTransGen r.Owns a i) : i = a ∨ r.Descends a i := by
  induction h with
  | refl => exact Or.inl rfl
  | tail _ howns ih =>
    obtain ⟨t, ht, hc⟩ := howns
    obtain ⟨tc, htc, hparent⟩ := forest.parent_eq ht hc
    rcases ih with rfl | hd
    · exact Or.inr (.child htc hparent)
    · exact Or.inr (.deeper htc hparent hd)

/-- Between an unfinished task and what is above it every parent still has its child. -/
theorem owns_of_descends (h : r.Descends a i) :
    ∀ {t}, r.get? i = some t → t.done = false → ReflTransGen r.Owns a i := by
  induction h with
  | child task parent =>
    intro t ht hd
    rw [task, Option.some.injEq] at ht
    obtain ⟨tp, htp, _, hc⟩ := forest.held task (ht ▸ hd) parent
    exact .single ⟨tp, htp, hc⟩
  | deeper task parent _ ih =>
    intro t ht hd
    rw [task, Option.some.injEq] at ht
    obtain ⟨tp, htp, hpd, hc⟩ := forest.held task (ht ▸ hd) parent
    exact .tail (ih htp hpd) ⟨tp, htp, hc⟩

theorem mem_cancelledBy (hi : ∃ t, r.get? i = some t) :
    i ∈ r.cancelledBy targets ↔ ∃ a ∈ targets, ReflTransGen r.Owns a i := by
  unfold cancelledBy
  rw [List.mem_flatMap]
  refine exists_congr fun a => and_congr_right fun _ => ?_
  rw [forest.mem_subtree_iff]
  refine and_iff_right_of_imp fun h => ?_
  rcases Relation.ReflTransGen.cases_head h with rfl | ⟨c, howns, _⟩
  · exact hi
  · exact howns.exists_task

/-- What is not reached stays as it is. -/
theorem get?_cancelAll_of_not_owned (h : ¬ ∃ a ∈ targets, ReflTransGen r.Owns a i) :
    (r.cancelAll targets).get? i = r.get? i := by
  rw [get?_cancelAll]
  cases hi : r.get? i with
  | none => rfl
  | some t =>
    have hnot : i ∉ r.cancelledBy targets := fun hm => h ((forest.mem_cancelledBy ⟨t, hi⟩).mp hm)
    simp [hnot, Task.flag_false]

theorem cancelsOwned (orphans : r.Orphans) (targets : List Nat) : r.CancelsOwned targets where
  ends := forest.cancels
  listed := fun _ _ => forest.mem_subtree_iff
  once := fun _ => forest.nodup_subtree
  owner_first := fun _ _ _ _ => forest.owner_before
  flagged := by
    intro i t ht h
    have hmem := (forest.mem_cancelledBy ⟨t, ht⟩).mpr h
    rw [get?_cancelAll, ht, Option.map_some]
    simp [hmem, Task.flag]
  spared := fun _ => forest.get?_cancelAll_of_not_owned
  queues := ⟨(cancelAll_flagged r targets fun _ => False).pending,
    (cancelAll_flagged r targets fun _ => False).finished⟩
  unfinished := fun _ _ _ ht hd h => forest.owns_of_descends h ht hd
  structural := fun _ _ => forest.descends_of_owns
  aside := by
    intro i hi hnone
    refine forest.get?_cancelAll_of_not_owned ?_
    rintro ⟨a, ha, howns⟩
    rcases forest.descends_of_owns howns with rfl | hd
    · exact hi ha
    · exact hnone a ha hd
  detached := by
    intro a i t ht hdetached hd
    obtain ⟨u, p, hu, hp⟩ := hd.exists_parent
    rw [ht, Option.some.injEq] at hu
    rw [← hu, orphans i t ht hdetached] at hp
    cases hp
  later := by
    intro name wait parent detached coroutine entry hparent
    have hsize := (cancelAll_flagged r targets fun _ => False).size
    refine ⟨_, hsize ▸ get?_create_new name wait parent detached coroutine entry ?_, rfl⟩
    rwa [hsize]

end Forest

end Registry

open Config in
/-- **Cancelling reaches exactly what is owned**, wherever a run is and whichever tasks are
cancelled. -/
theorem cancelling_reaches_what_is_owned (w : World σ) (o : RunOptions) (outer : σ) (name : String)
    (g n : Nat) (targets : List Nat) :
    (run w o n (launched outer name g)).machine.registry.CancelsOwned targets := by
  have regular := (regular_launched outer name g).run w o n
  obtain ⟨begun, sound⟩ := regular.sound
  exact (Rehearsal.Sound.forest sound).cancelsOwned regular.orphans targets

end Rehearsal
