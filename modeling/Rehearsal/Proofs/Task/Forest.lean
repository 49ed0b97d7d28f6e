import Mathlib.Data.List.Nodup
import Rehearsal.Proofs.Task.Lookup

/-!
# Ownership is a forest

`Forest` ties the three ways in which the registry knows about ownership together: parent links go
to smaller ids, every unfinished task stands once among the children of its unfinished parent, and
exactly the unfinished tasks are pending. Each operation of the registry keeps it.
-/
namespace Rehearsal

/-- What task `i` looks like by itself. -/
structure Task.WellFormed (i : Nat) (t : Task) : Prop where
  id_eq : t.id = i
  parent_lt : ∀ p, t.parent = some p → p < i
  root_or_detached : t.parent = none → i = 0 ∨ t.detached = true
  nodup : t.children.Nodup
  ended : t.done = true → t.children = [] ∧ t.interruption = none ∧ t.coroutine = none

/-- What ownership and the pending set look like in every registry of a run. -/
structure Registry.Forest (r : Registry) : Prop where
  wellFormed : ∀ {i t}, r.get? i = some t → t.WellFormed i
  parent_eq : ∀ {i t c}, r.get? i = some t → c ∈ t.children →
    ∃ tc, r.get? c = some tc ∧ tc.parent = some i
  held : ∀ {i t p}, r.get? i = some t → t.done = false → t.parent = some p →
    ∃ tp, r.get? p = some tp ∧ tp.done = false ∧ i ∈ tp.children
  sorted : r.pending.Pairwise (· < ·)
  mem_pending : ∀ {i}, i ∈ r.pending ↔ ∃ t, r.get? i = some t ∧ t.done = false
  finished_nodup : r.finished.Nodup
  mem_finished : ∀ {i}, i ∈ r.finished → ∃ t, r.get? i = some t ∧ t.done = true

/-- A task of `r` changed into `t'`: it stays where it is, and lets go of nothing but finished
children. -/
structure Task.Retied (r : Registry) (t t' : Task) : Prop where
  id : t'.id = t.id
  parent : t'.parent = t.parent
  detached : t'.detached = t.detached
  done : t'.done = t.done
  ended : t.done = true → t'.interruption = none ∧ t'.coroutine = none
  children : t'.children.Sublist t.children
  dropped : ∀ c ∈ t.children, c ∉ t'.children → r.isDone c = true

theorem Task.Retied.of_unfinished {r : Registry} {t t' : Task} (hid : t'.id = t.id)
    (hp : t'.parent = t.parent) (hdet : t'.detached = t.detached) (ht : t.done = false)
    (ht' : t'.done = false) (hc : t'.children = t.children) : t.Retied r t' :=
  ⟨hid, hp, hdet, ht'.trans ht.symm, fun h => (Bool.false_ne_true (ht.symm.trans h)).elim,
    hc ▸ List.Sublist.refl _, fun _ hm hn => absurd (hc ▸ hm) hn⟩

namespace Task.WellFormed

variable {i : Nat} {t : Task}

theorem flag (h : t.WellFormed i) (c l : Bool) : (t.flag c l).WellFormed i :=
  ⟨h.id_eq, h.parent_lt, h.root_or_detached, h.nodup, h.ended⟩

theorem retied {r : Registry} {t' : Task} (h : t.WellFormed i) (hr : t.Retied r t') :
    t'.WellFormed i where
  id_eq := hr.id.trans h.id_eq
  parent_lt := hr.parent ▸ h.parent_lt
  root_or_detached := hr.parent ▸ hr.detached ▸ h.root_or_detached
  nodup := h.nodup.sublist hr.children
  ended := by
    intro hd
    have hd' := hr.done ▸ hd
    exact ⟨List.sublist_nil.mp ((h.ended hd').1 ▸ hr.children), hr.ended hd'⟩

theorem fresh {name : String} {wait : Wait} {parent : Option Nat} {detached : Bool}
    {coroutine : Option Coroutine} {entry : Option Entry} (hp : ∀ p, parent = some p → p < i)
    (hn : parent = none → i = 0 ∨ detached = true) :
    (Task.fresh i name wait parent detached coroutine entry).WellFormed i :=
  ⟨rfl, hp, hn, List.nodup_nil, fun hd => (Bool.false_ne_true hd).elim⟩

theorem append_child (h : t.WellFormed i) (hd : t.done = false) {c : Nat} (hc : c ∉ t.children) :
    { t with children := t.children ++ [c] }.WellFormed i where
  id_eq := h.id_eq
  parent_lt := h.parent_lt
  root_or_detached := h.root_or_detached
  nodup := by
    refine List.nodup_append.mpr ⟨h.nodup, by simp, ?_⟩
    intro a ha b hb hab
    rw [List.mem_singleton] at hb
    exact hc (hb ▸ hab ▸ ha)
  ended := fun hd' => (Bool.false_ne_true (hd.symm.trans hd')).elim

theorem finish (h : t.WellFormed i) (hc : t.children = []) (v : Value) :
    (t.finish v).WellFormed i :=
  ⟨h.id_eq, h.parent_lt, h.root_or_detached, h.nodup, fun _ => ⟨hc, rfl, rfl⟩⟩

end Task.WellFormed

namespace Registry.Forest

variable {r r' : Registry} {i : Nat} {t : Task}

theorem id_eq (h : Forest r) (ht : r.get? i = some t) : t.id = i := (h.wellFormed ht).id_eq

theorem parent_lt (h : Forest r) {p : Nat} (ht : r.get? i = some t) (hp : t.parent = some p) :
    p < i :=
  (h.wellFormed ht).parent_lt p hp

theorem ended (h : Forest r) (ht : r.get? i = some t) (hd : t.done = true) :
    t.children = [] ∧ t.interruption = none ∧ t.coroutine = none :=
  (h.wellFormed ht).ended hd

theorem empty : Forest Registry.empty := by
  have hnone : ∀ i t, Registry.empty.get? i = some t → False := by
    intro i t h
    cases h
  constructor
  case mem_pending =>
    intro i
    constructor
    · intro h
      cases h
    · rintro ⟨t, h, _⟩
      exact (hnone i t h).elim
  case mem_finished =>
    intro i h
    cases h
  case sorted => exact List.Pairwise.nil
  case finished_nodup => exact List.nodup_nil
  all_goals
    intros
    rename Registry.empty.get? _ = some _ => h
    exact (hnone _ _ h).elim

theorem exists_parent (h : Forest r) {i p : Nat} {t : Task} (ht : r.get? i = some t)
    (hp : t.parent = some p) : ∃ tp, r.get? p = some tp :=
  exists_of_lt (Nat.lt_trans (h.parent_lt ht hp) (get?_eq_some_lt ht))

theorem pending_nodup (h : Forest r) : r.pending.Nodup := h.sorted.imp fun hlt => Nat.ne_of_lt hlt

theorem lt_of_mem_pending (h : Forest r) {i : Nat} (hi : i ∈ r.pending) : i < r.size := by
  obtain ⟨t, ht, _⟩ := h.mem_pending.mp hi
  exact get?_eq_some_lt ht

theorem not_mem_finished (h : Forest r) {i : Nat} {t : Task} (ht : r.get? i = some t)
    (hd : t.done = false) : i ∉ r.finished := by
  intro hi
  obtain ⟨t', ht', hd'⟩ := h.mem_finished hi
  rw [ht, Option.some.injEq] at ht'
  rw [← ht', hd] at hd'
  cases hd'

/-- Flags say nothing about ownership. -/
theorem flagged {gone : Nat → Prop} (h : Forest r) (hf : Flagged r r' gone) : Forest r' where
  wellFormed := by
    intro i t' ht'
    obtain ⟨t, c, l, ht, rfl, _⟩ := hf.of_eq_some ht'
    exact (h.wellFormed ht).flag c l
  parent_eq := by
    intro i t' ch ht' hc
    obtain ⟨t, c, l, ht, rfl, _⟩ := hf.of_eq_some ht'
    obtain ⟨tc, htc, hp⟩ := h.parent_eq ht hc
    obtain ⟨c', l', he, _⟩ := hf.eq_some htc
    exact ⟨_, he, hp⟩
  held := by
    intro i t' p ht' hd hp
    obtain ⟨t, c, l, ht, rfl, _⟩ := hf.of_eq_some ht'
    obtain ⟨tp, htp, hpd, hm⟩ := h.held ht hd hp
    obtain ⟨c', l', he, _⟩ := hf.eq_some htp
    exact ⟨_, he, hpd, hm⟩
  sorted := by rw [hf.pending]; exact h.sorted
  mem_pending := by
    intro i
    rw [hf.pending, h.mem_pending]
    constructor
    · rintro ⟨t, ht, hd⟩
      obtain ⟨c, l, he, _⟩ := hf.eq_some ht
      exact ⟨_, he, hd⟩
    · rintro ⟨t', ht', hd⟩
      obtain ⟨t, c, l, ht, rfl, _⟩ := hf.of_eq_some ht'
      exact ⟨t, ht, hd⟩
  finished_nodup := by rw [hf.finished]; exact h.finished_nodup
  mem_finished := by
    intro i hi
    rw [hf.finished] at hi
    obtain ⟨t, ht, hd⟩ := h.mem_finished hi
    obtain ⟨c, l, he, _⟩ := hf.eq_some ht
    exact ⟨_, he, hd⟩

/-- Changing an unfinished task in place. -/
theorem modify (h : Forest r) {i : Nat} {t : Task} {f : Task → Task} (ht : r.get? i = some t)
    (hf : Task.Retied r t (f t)) : Forest (r.modify i f) := by
  have hself : (r.modify i f).get? i = some (f t) := get?_modify_of_eq_some f ht
  have hlink : ∀ {j u}, r.get? j = some u → ∃ u', (r.modify i f).get? j = some u' ∧
      u'.parent = u.parent ∧ u'.done = u.done := by
    intro j u hu
    by_cases hj : j = i
    · subst hj
      rw [ht, Option.some.injEq] at hu
      subst hu
      exact ⟨_, hself, hf.parent, hf.done⟩
    · exact ⟨u, by rw [get?_modify_ne hj]; exact hu, rfl, rfl⟩
  constructor
  case wellFormed =>
    intro j u hu
    rcases get?_modify_cases ht hu with ⟨rfl, rfl⟩ | ⟨_, hu⟩
    · exact (h.wellFormed ht).retied hf
    · exact h.wellFormed hu
  case parent_eq =>
    intro j u c hu hc
    have hold : ∃ tc, r.get? c = some tc ∧ tc.parent = some j := by
      rcases get?_modify_cases ht hu with ⟨rfl, rfl⟩ | ⟨_, hu⟩
      · exact h.parent_eq ht (hf.children.subset hc)
      · exact h.parent_eq hu hc
    obtain ⟨tc, htc, hp⟩ := hold
    obtain ⟨tc', htc', hp', _⟩ := hlink htc
    exact ⟨tc', htc', hp'.trans hp⟩
  case held =>
    intro j u p hu hd hp
    have hold : ∃ u₀, r.get? j = some u₀ ∧ u₀.done = false ∧ u₀.parent = some p := by
      rcases get?_modify_cases ht hu with ⟨rfl, rfl⟩ | ⟨_, hu⟩
      · exact ⟨t, ht, hf.done ▸ hd, hf.parent ▸ hp⟩
      · exact ⟨u, hu, hd, hp⟩
    obtain ⟨u₀, hu₀, hd₀, hp₀⟩ := hold
    obtain ⟨tp, htp, hpd, hm⟩ := h.held hu₀ hd₀ hp₀
    by_cases hpi : p = i
    · subst hpi
      rw [ht, Option.some.injEq] at htp
      subst htp
      refine ⟨_, hself, hf.done.trans hpd, ?_⟩
      by_contra hn
      have hdone := hf.dropped j hm hn
      rw [isDone_of_eq_some hu₀, hd₀] at hdone
      cases hdone
    · exact ⟨tp, by rw [get?_modify_ne hpi]; exact htp, hpd, hm⟩
  case sorted => exact h.sorted
  case mem_pending =>
    intro j
    rw [pending_modify, h.mem_pending]
    constructor
    · rintro ⟨u, hu, hd⟩
      obtain ⟨u', hu', _, hd'⟩ := hlink hu
      exact ⟨u', hu', hd'.trans hd⟩
    · rintro ⟨u, hu, hd⟩
      rcases get?_modify_cases ht hu with ⟨rfl, rfl⟩ | ⟨_, hu⟩
      · exact ⟨t, ht, hf.done ▸ hd⟩
      · exact ⟨u, hu, hd⟩
  case finished_nodup => exact h.finished_nodup
  case mem_finished =>
    intro j hj
    obtain ⟨u, hu, hd⟩ := h.mem_finished hj
    obtain ⟨u', hu', _, hd'⟩ := hlink hu
    exact ⟨u', hu', hd'.trans hd⟩

theorem size_not_mem_children (h : Forest r) {i : Nat} {t : Task} (ht : r.get? i = some t) :
    r.size ∉ t.children := by
  intro hm
  obtain ⟨tc, htc, _⟩ := h.parent_eq ht hm
  exact absurd (get?_eq_some_lt htc) (Nat.lt_irrefl _)

section Create

variable {name : String} {wait : Wait} {parent : Option Nat} {detached : Bool}
  {coroutine : Option Coroutine} {entry : Option Entry}

/-- An old task keeps everything when a task is made; the parent has one child more, the last. -/
theorem get?_create_old (h : Forest r) (hp : ∀ p, parent = some p → p < r.size) {i : Nat} {t : Task}
    (ht : r.get? i = some t) :
    (r.create name wait parent detached coroutine entry).1.get? i =
      some { t with children :=
        if parent = some i then t.children ++ [r.size] else t.children } := by
  rw [get?_create hp, if_neg (Nat.ne_of_lt (get?_eq_some_lt ht)), ht]
  by_cases hpi : parent = some i
  · rw [if_pos hpi, if_pos hpi, Option.map_some, Task.addChild,
      if_neg (by simpa using h.size_not_mem_children ht)]
  · rw [if_neg hpi, if_neg hpi]

theorem get?_create_new (name : String) (wait : Wait) (parent : Option Nat) (detached : Bool)
    (coroutine : Option Coroutine) (entry : Option Entry) (hp : ∀ p, parent = some p → p < r.size) :
    (r.create name wait parent detached coroutine entry).1.get? r.size =
      some (Task.fresh r.size name wait parent detached coroutine entry) := by
  rw [get?_create hp, if_pos rfl]

theorem get?_create_inv (h : Forest r) (hp : ∀ p, parent = some p → p < r.size) {i : Nat}
    {t' : Task} (ht' : (r.create name wait parent detached coroutine entry).1.get? i = some t') :
    (i = r.size ∧ t' = Task.fresh r.size name wait parent detached coroutine entry) ∨
      ∃ t, r.get? i = some t ∧
        t' = { t with children :=
          if parent = some i then t.children ++ [r.size] else t.children } := by
  rcases get?_create_cases hp ht' with hs | ⟨_, t, ht, _⟩
  · exact Or.inl hs
  · rw [h.get?_create_old hp ht, Option.some.injEq] at ht'
    exact Or.inr ⟨t, ht, ht'.symm⟩

/-- The children of a task once another one has been made. -/
theorem mem_children_create {i c n : Nat} {children : List Nat} :
    c ∈ (if parent = some i then children ++ [n] else children) ↔
      c ∈ children ∨ (c = n ∧ parent = some i) := by
  split
  · rename_i hpi
    simp [hpi]
  · rename_i hpi
    simp [hpi]

/-- Making a task under an unfinished parent, or a detached one. -/
theorem create (h : Forest r)
    (hp : ∀ p, parent = some p → ∃ tp, r.get? p = some tp ∧ tp.done = false)
    (hn : parent = none → r.size = 0 ∨ detached = true) :
    Forest (r.create name wait parent detached coroutine entry).1 := by
  have hlt : ∀ p, parent = some p → p < r.size := by
    intro p hpp
    obtain ⟨tp, htp, _⟩ := hp p hpp
    exact get?_eq_some_lt htp
  constructor
  case wellFormed =>
    intro i t' ht'
    rcases h.get?_create_inv hlt ht' with ⟨rfl, rfl⟩ | ⟨t, ht, rfl⟩
    · exact .fresh hlt hn
    · split
      · rename_i hpi
        obtain ⟨tp, htp, hpd⟩ := hp i hpi
        rw [ht, Option.some.injEq] at htp
        exact (h.wellFormed ht).append_child (htp ▸ hpd) (h.size_not_mem_children ht)
      · exact h.wellFormed ht
  case parent_eq =>
    intro i t' c ht' hc
    rcases h.get?_create_inv hlt ht' with ⟨rfl, rfl⟩ | ⟨t, ht, rfl⟩
    · cases hc
    · rcases mem_children_create.mp hc with hc | ⟨rfl, hpi⟩
      · obtain ⟨tc, htc, hpc⟩ := h.parent_eq ht hc
        exact ⟨_, h.get?_create_old hlt htc, hpc⟩
      · exact ⟨_, get?_create_new _ _ _ _ _ _ hlt, hpi⟩
  case held =>
    intro i t' p ht' hd hpp
    rcases h.get?_create_inv hlt ht' with ⟨rfl, rfl⟩ | ⟨t, ht, rfl⟩
    · have hpar : parent = some p := hpp
      obtain ⟨tp, htp, hpd⟩ := hp p hpar
      exact ⟨_, h.get?_create_old hlt htp, hpd, mem_children_create.mpr (Or.inr ⟨rfl, hpar⟩)⟩
    · obtain ⟨tp, htp, hpd, hm⟩ := h.held ht hd hpp
      exact ⟨_, h.get?_create_old hlt htp, hpd, mem_children_create.mpr (Or.inl hm)⟩
  case sorted =>
    rw [pending_create]
    refine List.pairwise_append.mpr ⟨h.sorted, by simp, ?_⟩
    intro a ha b hb
    rw [List.mem_singleton] at hb
    exact hb ▸ h.lt_of_mem_pending ha
  case mem_pending =>
    intro i
    rw [pending_create, List.mem_append, h.mem_pending, List.mem_singleton]
    constructor
    · rintro (⟨t, ht, hd⟩ | rfl)
      · exact ⟨_, h.get?_create_old hlt ht, hd⟩
      · exact ⟨_, get?_create_new _ _ _ _ _ _ hlt, rfl⟩
    · rintro ⟨t', ht', hd⟩
      rcases h.get?_create_inv hlt ht' with ⟨rfl, rfl⟩ | ⟨t, ht, rfl⟩
      · exact Or.inr rfl
      · exact Or.inl ⟨t, ht, hd⟩
  case finished_nodup => rw [finished_create]; exact h.finished_nodup
  case mem_finished =>
    intro i hi
    rw [finished_create] at hi
    obtain ⟨t, ht, hd⟩ := h.mem_finished hi
    exact ⟨_, h.get?_create_old hlt ht, hd⟩

end Create

/-- A task without children is no unfinished task's parent. -/
theorem parent_ne_of_childless (h : Forest r) {i j : Nat} {t u : Task} (ht : r.get? i = some t)
    (hc : t.children = []) (hu : r.get? j = some u) (hd : u.done = false) :
    u.parent ≠ some i := by
  intro hp
  obtain ⟨tp, htp, _, hm⟩ := h.held hu hd hp
  rw [ht, Option.some.injEq] at htp
  rw [← htp, hc] at hm
  cases hm

/-- Ending a task that owns nothing. -/
theorem finish (h : Forest r) {i : Nat} {t : Task} (ht : r.get? i = some t) (hd : t.done = false)
    (hc : t.children = []) (v : Value) : Forest ((r.modify i (·.finish v)).retire i) := by
  have hmem : i ∈ r.pending := h.mem_pending.mpr ⟨t, ht, hd⟩
  have hself : (r.modify i (·.finish v)).get? i = some (t.finish v) :=
    get?_modify_of_eq_some _ ht
  rw [retire_of_mem (r := r.modify i (·.finish v)) hmem]
  have hget : ∀ {j u}, ({ r.modify i (·.finish v) with
      pending := r.pending.erase i, finished := r.finished ++ [i] } : Registry).get? j = some u →
      (j = i ∧ u = t.finish v) ∨ (j ≠ i ∧ r.get? j = some u) := fun hu => get?_modify_cases ht hu
  have hkeep : ∀ {j u}, j ≠ i → r.get? j = some u → ({ r.modify i (·.finish v) with
      pending := r.pending.erase i, finished := r.finished ++ [i] } : Registry).get? j = some u :=
    fun hj hu => (get?_modify_ne (f := (·.finish v)) hj).trans hu
  constructor
  case wellFormed =>
    intro j u hu
    rcases hget hu with ⟨rfl, rfl⟩ | ⟨_, hu⟩
    · exact (h.wellFormed ht).finish hc v
    · exact h.wellFormed hu
  case parent_eq =>
    intro j u c hu hm
    rcases hget hu with ⟨rfl, rfl⟩ | ⟨_, hu⟩
    · have hm' : c ∈ t.children := hm
      rw [hc] at hm'
      cases hm'
    · obtain ⟨tc, htc, hp⟩ := h.parent_eq hu hm
      by_cases hci : c = i
      · subst hci
        rw [ht, Option.some.injEq] at htc
        exact ⟨_, hself, by rw [← hp, ← htc]; rfl⟩
      · exact ⟨tc, hkeep hci htc, hp⟩
  case held =>
    intro j u p hu hud hp
    rcases hget hu with ⟨rfl, rfl⟩ | ⟨hj, hu⟩
    · cases hud
    · obtain ⟨tp, htp, hpd, hm⟩ := h.held hu hud hp
      have hpi : p ≠ i := fun he => h.parent_ne_of_childless ht hc hu hud (he ▸ hp)
      exact ⟨tp, hkeep hpi htp, hpd, hm⟩
  case sorted => exact h.sorted.sublist List.erase_sublist
  case mem_pending =>
    intro j
    show j ∈ r.pending.erase i ↔ _
    rw [h.pending_nodup.mem_erase_iff, h.mem_pending]
    constructor
    · rintro ⟨hj, u, hu, hud⟩
      exact ⟨u, hkeep hj hu, hud⟩
    · rintro ⟨u, hu, hud⟩
      rcases hget hu with ⟨rfl, rfl⟩ | ⟨hj, hu⟩
      · cases hud
      · exact ⟨hj, u, hu, hud⟩
  case finished_nodup =>
    refine List.nodup_append.mpr ⟨h.finished_nodup, by simp, ?_⟩
    intro a ha b hb hab
    rw [List.mem_singleton] at hb
    exact h.not_mem_finished ht hd (hb ▸ hab ▸ ha)
  case mem_finished =>
    intro j hj
    rcases List.mem_append.mp hj with hj | hj
    · obtain ⟨u, hu, hud⟩ := h.mem_finished hj
      have hji : j ≠ i := by
        rintro rfl
        exact h.not_mem_finished ht hd hj
      exact ⟨u, hkeep hji hu, hud⟩
    · rw [List.mem_singleton] at hj
      subst hj
      exact ⟨_, hself, rfl⟩

/-- The task that answers for an unfinished one is unfinished, and runs tested code unless it is the
task itself. -/
theorem coroutineOwner_spec (h : Forest r) {i : Nat} {t : Task} (ht : r.get? i = some t)
    (hd : t.done = false) :
    ∃ u, r.get? (r.coroutineOwner i) = some u ∧ u.done = false ∧
      (u.coroutine.isSome = true ∨ r.coroutineOwner i = i) := by
  have hgo : ∀ j v, r.get? j = some v → v.done = false → ∃ u,
      r.get? (Registry.coroutineOwner.go r i j) = some u ∧ u.done = false ∧
        (u.coroutine.isSome = true ∨ Registry.coroutineOwner.go r i j = i) := by
    intro j
    induction j using Nat.strongRecOn with
    | _ j ih =>
      intro v hv hvd
      rw [Registry.coroutineOwner.go]
      simp only [hv]
      split
      · rename_i hco
        exact ⟨v, hv, hvd, Or.inl hco⟩
      · cases hp : v.parent with
        | none => exact ⟨t, ht, hd, Or.inr rfl⟩
        | some p =>
          have hlt := h.parent_lt hv hp
          obtain ⟨vp, hvp, hpd, _⟩ := h.held hv hvd hp
          simp only [hlt, if_true]
          exact ih p hlt vp hvp hpd
  exact hgo i t ht hd

theorem reap (h : Forest r) : Forest r.reap.1 :=
  { h with
    finished_nodup := List.nodup_nil
    mem_finished := fun hi => by cases hi }

end Registry.Forest

end Rehearsal
