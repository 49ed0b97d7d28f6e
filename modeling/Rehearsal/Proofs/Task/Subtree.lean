import Mathlib.Logic.Relation
import Rehearsal.Proofs.Task.Forest

/-!
# What a task owns

The walk through what a task owns is a list of tasks on a stack, the topmost of which gives way to
its children. In a forest it lists exactly what can be reached through children, each task once and
after the task that owns it; `subtree` is what it lists. Flags change nothing of it, so what several
cancellations in turn raise is read off the registry they began with.
-/
namespace Rehearsal

open Relation (ReflTransGen)

def Registry.Owns (r : Registry) (p c : Nat) : Prop := ∃ t, r.get? p = some t ∧ c ∈ t.children

/-- The walk from the tasks of a stack to everything they own: the task on top is listed, and its
children take its place. -/
inductive Registry.Walk (r : Registry) : List Nat → List Nat → Prop
  | ends : Walk r [] []
  | visits {i : Nat} {t : Task} {rest listed : List Nat} (task : r.get? i = some t)
      (onward : Walk r (t.children ++ rest) listed) : Walk r (i :: rest) (i :: listed)

/-- Cancelling several tasks in turn: each is walked from, and what the walk has listed is flagged
before the next one's turn. -/
inductive Registry.Cancels : Registry → List Nat → List (List Nat) → Registry → Prop
  | ends {r : Registry} : Cancels r [] [] r
  | next {r r' : Registry} {a : Nat} {rest listed : List Nat} {lists : List (List Nat)}
      (walk : r.Walk [a] listed) (onward : Cancels (r.flagCancelled listed) rest lists r') :
      Cancels r (a :: rest) (listed :: lists) r'

namespace Registry

variable {r r' : Registry} {a b i p c : Nat} {ids listed : List Nat}

/-! ### Ownership -/

theorem owns_iff {t : Task} (ht : r.get? p = some t) : r.Owns p c ↔ c ∈ t.children := by
  simp only [Owns, ht, Option.some.injEq, exists_eq_left']

theorem Owns.exists_task (h : r.Owns p c) : ∃ t, r.get? p = some t := h.imp fun _ => And.left

namespace Forest

variable (forest : r.Forest)
include forest

theorem owns_lt (h : r.Owns p c) : p < c := by
  obtain ⟨t, ht, hc⟩ := h
  obtain ⟨tc, htc, hparent⟩ := forest.parent_eq ht hc
  exact forest.parent_lt htc hparent

/-- A task has one owner. -/
theorem owner_unique {q : Nat} (h : r.Owns p c) (h' : r.Owns q c) : p = q := by
  obtain ⟨t, ht, hc⟩ := h
  obtain ⟨u, hu, hc'⟩ := h'
  obtain ⟨tc, htc, hp⟩ := forest.parent_eq ht hc
  obtain ⟨tc', htc', hq⟩ := forest.parent_eq hu hc'
  rw [htc, Option.some.injEq] at htc'
  rw [← htc', hp, Option.some.injEq] at hq
  exact hq

theorem le_of_owns (h : ReflTransGen r.Owns a i) : a ≤ i := by
  induction h with
  | refl => exact Nat.le_refl a
  | tail _ hstep ih => exact Nat.le_trans ih (Nat.le_of_lt (forest.owns_lt hstep))

/-- Whoever owns a child of `p`, and is not that child, owns `p`. -/
theorem owns_of_owns_child (hc : r.Owns p c) (h : ReflTransGen r.Owns a c) :
    a = c ∨ ReflTransGen r.Owns a p := by
  rcases Relation.ReflTransGen.cases_tail h with rfl | ⟨q, haq, hqc⟩
  · exact Or.inl rfl
  · exact Or.inr (forest.owner_unique hqc hc ▸ haq)

end Forest

def Apart (r : Registry) (a b : Nat) : Prop :=
  ¬ ReflTransGen r.Owns a b ∧ ¬ ReflTransGen r.Owns b a

/-- Children of one task are apart. -/
theorem Forest.apart_of_owns (forest : r.Forest) (ha : r.Owns p a) (hb : r.Owns p b) (hne : a ≠ b) :
    r.Apart a b := by
  have hnot : ∀ {x y}, r.Owns p x → r.Owns p y → x ≠ y → ¬ ReflTransGen r.Owns x y := by
    intro x y hx hy hxy h
    rcases forest.owns_of_owns_child hy h with he | hxp
    · exact hxy he
    · exact Nat.lt_irrefl p (Nat.lt_of_lt_of_le (forest.owns_lt hx) (forest.le_of_owns hxp))
  exact ⟨hnot ha hb hne, hnot hb ha (Ne.symm hne)⟩

/-! ### Walks -/

theorem Walk.append {ids' listed' : List Nat} (h : r.Walk ids listed) (h' : r.Walk ids' listed') :
    r.Walk (ids ++ ids') (listed ++ listed') := by
  induction h with
  | ends => exact h'
  | visits task _ ih =>
    rw [List.append_assoc] at ih
    exact .visits task ih

theorem walk_flatMap {walked : Nat → List Nat} {ids : List Nat}
    (h : ∀ i ∈ ids, r.Walk [i] (walked i)) :
    r.Walk ids (ids.flatMap walked) := by
  induction ids with
  | nil => exact .ends
  | cons i ids ih =>
    have hfirst := h i (List.mem_cons_self ..)
    have hrest := ih fun j hj => h j (List.mem_cons_of_mem _ hj)
    simpa using hfirst.append hrest

/-- A walk lists what its stack owns. -/
theorem Walk.mem_iff (h : r.Walk ids listed) : i ∈ listed ↔ ∃ a ∈ ids, ReflTransGen r.Owns a i := by
  induction h with
  | ends => simp
  | @visits a t rest listed task _ ih =>
    rw [List.mem_cons, ih]
    constructor
    · rintro (rfl | ⟨b, hb, hbi⟩)
      · exact ⟨i, List.mem_cons_self .., .refl⟩
      · rcases List.mem_append.mp hb with hb | hb
        · exact ⟨a, List.mem_cons_self .., .head ((owns_iff task).mpr hb) hbi⟩
        · exact ⟨b, List.mem_cons_of_mem _ hb, hbi⟩
    · rintro ⟨b, hb, hbi⟩
      rcases List.mem_cons.mp hb with rfl | hb
      · rcases Relation.ReflTransGen.cases_head hbi with rfl | ⟨c, hbc, hci⟩
        · exact Or.inl rfl
        · exact Or.inr ⟨c, List.mem_append_left _ ((owns_iff task).mp hbc), hci⟩
      · exact Or.inr ⟨b, List.mem_append_right _ hb, hbi⟩

/-- Whatever a walk lists was on the stack when it began, or comes after its owner. -/
theorem Walk.owner_before (h : r.Walk ids listed) :
    ∀ {before after : List Nat}, listed = before ++ i :: after → i ∈ ids ∨
    ∃ p ∈ before, r.Owns p i := by
  induction h with
  | ends =>
    intro before after h
    cases before <;> cases h
  | @visits a t rest listed task _ ih =>
    intro before after hsplit
    cases before with
    | nil =>
      obtain ⟨rfl, _⟩ := List.cons.inj hsplit
      exact Or.inl (List.mem_cons_self ..)
    | cons b before =>
      obtain ⟨rfl, htail⟩ := List.cons.inj hsplit
      rcases ih htail with hi | ⟨p, hp, howns⟩
      · rcases List.mem_append.mp hi with hi | hi
        · exact Or.inr ⟨a, List.mem_cons_self .., (owns_iff task).mpr hi⟩
        · exact Or.inl (List.mem_cons_of_mem _ hi)
      · exact Or.inr ⟨p, List.mem_cons_of_mem _ hp, howns⟩

/-- A walk from tasks that are apart lists every task once. -/
theorem Forest.nodup_of_walk (forest : r.Forest) (h : r.Walk ids listed)
    (hids : ids.Pairwise r.Apart) :
    listed.Nodup := by
  induction h with
  | ends => exact List.nodup_nil
  | @visits a t rest listed task onward ih =>
    obtain ⟨hapart, hrest⟩ := List.pairwise_cons.mp hids
    have hchild : ∀ {c}, c ∈ t.children → r.Owns a c := fun hc => (owns_iff task).mpr hc
    refine List.nodup_cons.mpr ⟨fun hmem => ?_, ih ?_⟩
    · obtain ⟨b, hb, hba⟩ := onward.mem_iff.mp hmem
      rcases List.mem_append.mp hb with hb | hb
      · exact Nat.lt_irrefl a
          (Nat.lt_of_lt_of_le (forest.owns_lt (hchild hb)) (forest.le_of_owns hba))
      · exact (hapart b hb).2 hba
    · refine List.pairwise_append.mpr ⟨?_, hrest, fun c hc b hb => ?_⟩
      · exact (forest.wellFormed task).nodup.imp_of_mem fun hc hd hne =>
          forest.apart_of_owns (hchild hc) (hchild hd) hne
      · have hcb : ¬ ReflTransGen r.Owns c b := fun h => (hapart b hb).1 (.head (hchild hc) h)
        refine ⟨hcb, fun hbc => ?_⟩
        rcases forest.owns_of_owns_child (hchild hc) hbc with rfl | hba
        · exact hcb .refl
        · exact (hapart b hb).2 hba

/-! ### Subtrees -/

/-- Children have larger ids, so no walk goes deeper than there are tasks past its start. -/
theorem Forest.walk_subtreeTo (forest : r.Forest) {depth i : Nat} {t : Task}
    (ht : r.get? i = some t)
    (hdepth : r.size ≤ i + depth) : r.Walk [i] (r.subtreeTo depth i) := by
  induction depth generalizing i t with
  | zero => exact absurd (get?_eq_some_lt ht) (by omega)
  | succ depth ih =>
    have hchildren : r.Walk t.children (t.children.flatMap (r.subtreeTo depth)) := by
      refine walk_flatMap fun c hc => ?_
      obtain ⟨tc, htc, hparent⟩ := forest.parent_eq ht hc
      have hlt := forest.parent_lt htc hparent
      exact ih htc (by omega)
    simp only [subtreeTo, ht]
    exact .visits ht (by simpa using hchildren)

/-- **The walk from a task ends**, and lists its subtree. -/
theorem Forest.walk_subtree (forest : r.Forest) {i : Nat} {t : Task} (ht : r.get? i = some t) :
    r.Walk [i] (r.subtree i) := forest.walk_subtreeTo ht (by omega)

theorem subtree_of_eq_none (h : r.get? a = none) : r.subtree a = [] := by
  simp only [subtree, subtreeTo, h]

namespace Forest

variable (forest : r.Forest)
include forest

theorem mem_subtree_iff : i ∈ r.subtree a ↔ (∃ t, r.get? a = some t) ∧ ReflTransGen r.Owns a i := by
  cases ha : r.get? a with
  | none => simp [subtree_of_eq_none ha]
  | some t =>
    rw [(forest.walk_subtree ha).mem_iff]
    simp

theorem nodup_subtree : (r.subtree a).Nodup := by
  cases ha : r.get? a with
  | none =>
    rw [subtree_of_eq_none ha]
    exact List.nodup_nil
  | some t => exact forest.nodup_of_walk (forest.walk_subtree ha) (List.pairwise_singleton ..)

/-- In a subtree, every task but the first comes after its owner. -/
theorem owner_before {before after : List Nat} (h : r.subtree a = before ++ i :: after) :
    (i = a ∧ before = []) ∨ ∃ p ∈ before, r.Owns p i := by
  cases ha : r.get? a with
  | none =>
    rw [subtree_of_eq_none ha] at h
    cases before <;> cases h
  | some t =>
    cases before with
    | nil =>
      simp only [subtree, subtreeTo, ha, List.nil_append] at h
      exact Or.inl ⟨(List.cons.inj h).1.symm, rfl⟩
    | cons b before =>
      refine Or.inr (((forest.walk_subtree ha).owner_before h).resolve_left fun hi => ?_)
      have hnodup := forest.nodup_subtree (a := a)
      rw [List.mem_singleton] at hi
      simp only [subtree, subtreeTo, ha, List.cons_append] at h hnodup
      obtain ⟨_, h⟩ := List.cons.inj h
      refine (List.nodup_cons.mp hnodup).1 ?_
      rw [h, ← hi]
      exact List.mem_append_right _ (List.mem_cons_self ..)

end Forest

/-! ### Flags -/

theorem subtreeTo_congr (h : ∀ i, (r'.get? i).map (·.children) = (r.get? i).map (·.children))
    (depth i : Nat) : r'.subtreeTo depth i = r.subtreeTo depth i := by
  induction depth generalizing i with
  | zero => rfl
  | succ depth ih =>
    have hi := h i
    have hsame : r'.subtreeTo depth = r.subtreeTo depth := funext ih
    cases ht : r.get? i with
    | none =>
      rw [ht, Option.map_none, Option.map_eq_none_iff] at hi
      simp only [subtreeTo, ht, hi]
    | some t =>
      rw [ht, Option.map_some, Option.map_eq_some_iff] at hi
      obtain ⟨t', ht', hc⟩ := hi
      simp only [subtreeTo, ht, ht', hc, hsame]

/-- Flags leave every subtree as it is. -/
theorem Flagged.subtree_eq {gone : Nat → Prop} (h : Flagged r r' gone) (i : Nat) :
    r'.subtree i = r.subtree i := by
  unfold subtree
  rw [h.size]
  refine subtreeTo_congr (fun j => ?_) _ _
  obtain ⟨c, l, hj, _⟩ := h.get? j
  rw [hj, Option.map_map]
  rfl

/-- Who is listed is flagged, and nobody else. -/
theorem get?_flagCancelled (r : Registry) (ids : List Nat) (i : Nat) :
    (r.flagCancelled ids).get? i = (r.get? i).map (Task.flag (decide (i ∈ ids)) false) := by
  unfold flagCancelled
  induction ids generalizing r with
  | nil =>
    cases hi : r.get? i with
    | none => simp [hi]
    | some t => simp [hi, Task.flag]
  | cons a ids ih =>
    rw [List.foldl_cons, ih, get?_modify]
    by_cases hia : i = a
    · subst hia
      cases hi : r.get? i <;> simp [Task.flag]
    · simp [hia]

theorem get?_cancelTree (r : Registry) (a i : Nat) :
    (r.cancelTree a).get? i = (r.get? i).map (Task.flag (decide (i ∈ r.subtree a)) false) :=
  get?_flagCancelled r (r.subtree a) i

theorem get?_cancelAll (r : Registry) (targets : List Nat) (i : Nat) :
    (r.cancelAll targets).get? i =
      (r.get? i).map (Task.flag (decide (i ∈ r.cancelledBy targets)) false) := by
  unfold cancelAll cancelledBy
  induction targets generalizing r with
  | nil =>
    cases hi : r.get? i with
    | none => simp [hi]
    | some t => simp [hi, Task.flag]
  | cons a targets ih =>
    have hsame : (r.cancelTree a).subtree = r.subtree :=
      funext (cancelTree_flagged r a fun _ => False).subtree_eq
    rw [List.foldl_cons, ih, get?_cancelTree, hsame, Option.map_map]
    congr 1
    funext t
    simp only [Function.comp_apply, Task.flag_flag, List.flatMap_cons,
      List.mem_append, Bool.or_false,
      Bool.decide_or]

/-- Cancelling in turn ends, and lists what each task owned when it all began. -/
theorem Forest.cancels (forest : r.Forest) {targets : List Nat}
    (h : ∀ a ∈ targets, ∃ t, r.get? a = some t) :
    r.Cancels targets (targets.map r.subtree) (r.cancelAll targets) := by
  unfold cancelAll
  induction targets generalizing r with
  | nil => exact .ends
  | cons a targets ih =>
    obtain ⟨t, ht⟩ := h a (List.mem_cons_self ..)
    have hflagged := cancelTree_flagged r a fun _ => False
    have hsame : (r.cancelTree a).subtree = r.subtree := funext hflagged.subtree_eq
    have hrest := ih (forest.flagged hflagged) fun b hb => by
      obtain ⟨u, hu⟩ := h b (List.mem_cons_of_mem _ hb)
      obtain ⟨_, _, hu', _⟩ := hflagged.eq_some hu
      exact ⟨_, hu'⟩
    rw [hsame] at hrest
    exact .next (forest.walk_subtree ht) hrest

end Registry

end Rehearsal
