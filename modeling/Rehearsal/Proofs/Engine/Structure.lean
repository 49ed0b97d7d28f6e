import Rehearsal.Proofs.Engine.Reachable

/-!
# Structured concurrency

No task outlives its parent. Along parent links ids go down and unfinished tasks stay below
unfinished ones, wherever a run is; so what is left over when a run returns was detached.
-/
namespace Rehearsal

variable {σ : Type}

namespace Registry

/-- Task `d` is below `a` along parent links. -/
inductive Descends (r : Registry) (a : Nat) : Nat → Prop
  | child {d : Nat} {t : Task} (task : r.get? d = some t) (parent : t.parent = some a) :
      Descends r a d
  | deeper {d p : Nat} {t : Task} (task : r.get? d = some t) (parent : t.parent = some p)
      (h : Descends r a p) : Descends r a d

/-- Task `top` is `d` itself or above it, and has no parent. -/
def Topmost (r : Registry) (top d : Nat) : Prop :=
  (top = d ∨ r.Descends top d) ∧ ∃ t, r.get? top = some t ∧ t.parent = none

/-- Ownership by unfinished parents. -/
structure Structured (r : Registry) : Prop where
  parent_lt : ∀ d t p, r.get? d = some t → t.parent = some p → p < d
  owned : ∀ d t p, r.get? d = some t → t.done = false → t.parent = some p →
    ∃ tp, r.get? p = some tp ∧ tp.done = false ∧ tp.children.count d = 1
  sheltered : ∀ a d ta td, r.Descends a d → r.get? a = some ta → r.get? d = some td →
    ta.done = true → td.done = true

namespace Forest

variable {r : Registry} {a d : Nat}

/-- What is above an unfinished task is unfinished. -/
theorem unfinished_above (h : Forest r) (hd : r.Descends a d) :
    ∀ {t}, r.get? d = some t → t.done = false → ∃ ta, r.get? a = some ta ∧ ta.done = false := by
  induction hd with
  | child task parent =>
    intro t ht hu
    rw [task, Option.some.injEq] at ht
    obtain ⟨ta, hta, hdone, _⟩ := h.held task (ht ▸ hu) parent
    exact ⟨ta, hta, hdone⟩
  | deeper task parent _ ih =>
    intro t ht hu
    rw [task, Option.some.injEq] at ht
    obtain ⟨tp, htp, hdone, _⟩ := h.held task (ht ▸ hu) parent
    exact ih htp hdone

theorem structured (h : Forest r) : r.Structured where
  parent_lt := fun _ _ _ => h.parent_lt
  owned := by
    intro d t p ht hd hp
    obtain ⟨tp, htp, hpd, hmem⟩ := h.held ht hd hp
    exact ⟨tp, htp, hpd, List.count_eq_one_of_mem (h.wellFormed htp).nodup hmem⟩
  sheltered := by
    intro a d ta td had hta htd hdone
    cases hd : td.done with
    | true => rfl
    | false =>
      obtain ⟨ta', hta', hd'⟩ := h.unfinished_above had htd hd
      rw [hta, Option.some.injEq] at hta'
      rw [← hta', hdone] at hd'
      cases hd'

/-- Parent links end. -/
theorem exists_topmost (h : Forest r) : ∀ {d t}, r.get? d = some t → ∃ top, r.Topmost top d := by
  intro d
  induction d using Nat.strongRecOn with
  | _ d ih =>
    intro t ht
    cases hp : t.parent with
    | none => exact ⟨d, Or.inl rfl, t, ht, hp⟩
    | some p =>
      obtain ⟨tp, htp⟩ := h.exists_parent ht hp
      obtain ⟨top, hup, htop⟩ := ih p (h.parent_lt ht hp) htp
      refine ⟨top, Or.inr ?_, htop⟩
      rcases hup with rfl | hup
      · exact .child ht hp
      · exact .deeper ht hp hup

/-- Above what is unfinished once the root is over stands a detached task. -/
theorem detached_of_topmost (h : Forest r) (hroot : r.isDone 0 = true) {top : Nat} {t : Task}
    (ht : r.get? d = some t) (hd : t.done = false) (htop : r.Topmost top d) :
    ∃ u, r.get? top = some u ∧ u.detached = true := by
  obtain ⟨hup, u, hu, hp⟩ := htop
  refine ⟨u, hu, ((h.wellFormed hu).root_or_detached hp).resolve_left ?_⟩
  rintro rfl
  have hopen : u.done = false := by
    rcases hup with rfl | hup
    · rw [hu, Option.some.injEq] at ht
      exact ht ▸ hd
    · obtain ⟨v, hv, hvd⟩ := h.unfinished_above hup ht hd
      rw [hu, Option.some.injEq] at hv
      exact hv ▸ hvd
  rw [isDone_of_eq_some hu, hopen] at hroot
  cases hroot

end Forest

end Registry

/-- The run has come to its end, and not through an exception. -/
def Config.Returned (c : Config σ) : Prop := c.stack = [] ∧ c.control = .done

theorem Config.Sound.root_over {begun : Nat → Prop} {c : Config σ} (h : c.Sound begun)
    (hr : c.Returned) : c.machine.registry.isDone 0 = true := by
  obtain ⟨m, stack, control⟩ := c
  obtain ⟨rfl, rfl⟩ := hr
  cases h with
  | resting _ nested => exact (Nested.ne_nil nested).elim
  | settled _ root => exact root

/-- **Structured concurrency.** In every configuration of a run, inside nested drives and while it
is given up as well, ownership is structured; and when a run returns, the topmost ancestor of a
pending task is a detached one. -/
theorem structured_concurrency (w : World σ) (o : RunOptions) (outer : σ)
    (name : String) (g n : Nat) :
    (Config.run w o n (Config.launched outer name g)).machine.registry.Structured ∧
    ((Config.run w o n (Config.launched outer name g)).Returned →
      ∀ d ∈ (Config.run w o n (Config.launched outer name g)).machine.registry.pending,
        (∃ top, (Config.run w o n (Config.launched outer name g)).machine.registry.Topmost top d) ∧
        ∀ top, (Config.run w o n (Config.launched outer name g)).machine.registry.Topmost top d →
          ∃ u, (Config.run w o n (Config.launched outer name g)).machine.registry.get? top =
            some u ∧
            u.detached = true) := by
  obtain ⟨begun, h⟩ := Config.sound_reached w o outer name g n
  have forest := Rehearsal.Sound.forest h
  refine ⟨forest.structured, fun hr d hd => ?_⟩
  obtain ⟨t, ht, hopen⟩ := forest.mem_pending.mp hd
  exact ⟨forest.exists_topmost ht,
    fun top htop => forest.detached_of_topmost (Config.Sound.root_over h hr) ht hopen htop⟩

/-- The root spawns a task that waits for a delay, and returns. -/
def Playbook.spawned : Playbook where
  responses
    | 0 => [.yielded (.effect (.fork .null [] [] true))]
    | 1 => [.yielded (.effect (.delay 1))]
    | _ => []
  plans := [{ CallPlan.real with invoke := false, output := .generator 1 }]

theorem structured_after_spawning :
    (Playbook.spawned.played 16).Returned ∧
      2 ∈ (Playbook.spawned.played 16).machine.registry.pending ∧
      (Playbook.spawned.played 16).machine.registry.Topmost 1 2 ∧
      (Playbook.spawned.played 16).machine.registry.Structured ∧
      ∃ u, (Playbook.spawned.played 16).machine.registry.get? 1 = some u ∧ u.detached = true := by
  obtain ⟨hstructured, hleft⟩ :=
    structured_concurrency Playbook.world .default Playbook.spawned "root" 0 16
  have hreturned : (Playbook.spawned.played 16).Returned := ⟨rfl, rfl⟩
  have hpending : 2 ∈ (Playbook.spawned.played 16).machine.registry.pending := by decide
  have htop : (Playbook.spawned.played 16).machine.registry.Topmost 1 2 :=
    ⟨Or.inr (.child rfl rfl), _, rfl, rfl⟩
  exact ⟨hreturned, hpending, htop, hstructured, (hleft hreturned 2 hpending).2 1 htop⟩

end Rehearsal
