import Rehearsal.Task.Cancellation

/-!
# What the registry's operations leave to be looked up

Every operation on the registry is described by what `get?` finds afterwards. Cancelling and letting
go only ever raise flags: `Task.flag` is what becomes of each task.
-/
namespace Rehearsal

def Task.flag (cancel leave : Bool) (t : Task) : Task :=
  { t with cancelled := t.cancelled || cancel, abandoned := t.abandoned || leave }

theorem Task.flag_false (t : Task) : t.flag false false = t := by simp [Task.flag]

theorem Task.flag_flag (c l c' l' : Bool) (t : Task) :
    (t.flag c l).flag c' l' = t.flag (c || c') (l || l') := by
  simp [Task.flag, Bool.or_assoc]

namespace Registry

theorem get?_eq_some_lt {r : Registry} {i : Nat} {t : Task} (h : r.get? i = some t) : i < r.size :=
  (Array.getElem?_eq_some_iff.mp h).1

theorem exists_of_lt {r : Registry} {i : Nat} (h : i < r.size) : ∃ t, r.get? i = some t :=
  ⟨r.tasks[i], Array.getElem?_eq_getElem h⟩

theorem get?_modify (r : Registry) (id i : Nat) (f : Task → Task) :
    (r.modify id f).get? i = if i = id then (r.get? i).map f else r.get? i := by
  simp only [get?, modify, Array.getElem?_modify, eq_comm]

theorem get?_modify_self (r : Registry) (id : Nat) (f : Task → Task) :
    (r.modify id f).get? id = (r.get? id).map f := by
  rw [get?_modify, if_pos rfl]

theorem get?_modify_ne {r : Registry} {id i : Nat} {f : Task → Task} (h : i ≠ id) :
    (r.modify id f).get? i = r.get? i := by
  rw [get?_modify, if_neg h]

theorem get?_modify_of_eq_some {r : Registry} {id : Nat} {t : Task} (f : Task → Task)
    (h : r.get? id = some t) : (r.modify id f).get? id = some (f t) := by
  rw [get?_modify_self, h, Option.map_some]

theorem get?_modify_cases {r : Registry} {id i : Nat} {f : Task → Task} {t t' : Task}
    (h : r.get? id = some t) (h' : (r.modify id f).get? i = some t') :
    (i = id ∧ t' = f t) ∨ (i ≠ id ∧ r.get? i = some t') := by
  by_cases hi : i = id
  · subst hi
    rw [get?_modify_of_eq_some f h, Option.some.injEq] at h'
    exact Or.inl ⟨rfl, h'.symm⟩
  · rw [get?_modify_ne hi] at h'
    exact Or.inr ⟨hi, h'⟩

theorem modify_of_eq_none {r : Registry} {id : Nat} {f : Task → Task} (h : r.get? id = none) :
    r.modify id f = r := by
  have htasks : r.tasks.modify id f = r.tasks := by
    refine Array.ext_getElem? fun i => ?_
    rw [Array.getElem?_modify]
    split
    · subst id
      rw [show r.tasks[i]? = none from h]
      rfl
    · rfl
  unfold modify
  rw [htasks]

theorem modify_modify (r : Registry) (id : Nat) (f g : Task → Task) :
    (r.modify id f).modify id g = r.modify id fun t => g (f t) := by
  have htasks : (r.tasks.modify id f).modify id g = r.tasks.modify id fun t => g (f t) := by
    refine Array.ext_getElem? fun i => ?_
    rw [Array.getElem?_modify, Array.getElem?_modify, Array.getElem?_modify]
    split
    · rw [Option.map_map]
      rfl
    · rfl
  unfold modify
  rw [htasks]

@[simp] theorem size_modify (r : Registry) (t : Nat) (f : Task → Task) :
    (r.modify t f).size = r.size := Array.size_modify ..

@[simp] theorem pending_modify (r : Registry) (id : Nat) (f : Task → Task) :
    (r.modify id f).pending = r.pending := rfl

@[simp] theorem finished_modify (r : Registry) (id : Nat) (f : Task → Task) :
    (r.modify id f).finished = r.finished := rfl

theorem isDone_iff {r : Registry} {i : Nat} :
    r.isDone i = true ↔ ∃ t, r.get? i = some t ∧ t.done = true := by
  unfold isDone
  cases r.get? i <;> simp

theorem isDone_of_eq_some {r : Registry} {i : Nat} {t : Task} (h : r.get? i = some t) :
    r.isDone i = t.done := by
  simp only [isDone, h]

theorem isDone_modify (r : Registry) (id i : Nat) (f : Task → Task)
    (hf : ∀ t : Task, (f t).done = t.done) : (r.modify id f).isDone i = r.isDone i := by
  unfold isDone
  rw [get?_modify]
  by_cases hi : i = id
  · rw [if_pos hi]
    cases r.get? i with
    | none => rfl
    | some t => exact hf t
  · rw [if_neg hi]

/-- As many tasks are there as ids are taken. -/
theorem size_eq {r r' : Registry} (h : ∀ i, (r'.get? i).isSome = (r.get? i).isSome) :
    r'.size = r.size := by
  have hle : ∀ {a b : Registry}, (∀ i, (b.get? i).isSome = (a.get? i).isSome) →
      a.size ≤ b.size := by
    intro a b hab
    refine Nat.le_of_not_lt fun hlt => ?_
    obtain ⟨t, ht⟩ := exists_of_lt hlt
    have hb := hab b.size
    rw [ht] at hb
    obtain ⟨t', ht'⟩ := Option.isSome_iff_exists.mp hb
    exact Nat.lt_irrefl _ (get?_eq_some_lt ht')
  exact Nat.le_antisymm (hle fun i => (h i).symm) (hle h)

/-! ### Making a task -/

@[simp] theorem create_snd (r : Registry) (name : String) (wait : Wait) (parent : Option Nat)
    (detached : Bool) (coroutine : Option Coroutine) (entry : Option Entry) :
    (r.create name wait parent detached coroutine entry).2 = r.size := by
  unfold create
  cases parent <;> rfl

@[simp] theorem pending_create (r : Registry) (name : String) (wait : Wait) (parent : Option Nat)
    (detached : Bool) (coroutine : Option Coroutine) (entry : Option Entry) :
    (r.create name wait parent detached coroutine entry).1.pending = r.pending ++ [r.size] := by
  unfold create
  cases parent <;> rfl

@[simp] theorem finished_create (r : Registry) (name : String) (wait : Wait) (parent : Option Nat)
    (detached : Bool) (coroutine : Option Coroutine) (entry : Option Entry) :
    (r.create name wait parent detached coroutine entry).1.finished = r.finished := by
  unfold create
  cases parent <;> rfl

/-- A new task stands at the end; its parent has taken it on. -/
theorem get?_create {r : Registry} {name : String} {wait : Wait} {parent : Option Nat}
    {detached : Bool} {coroutine : Option Coroutine} {entry : Option Entry}
    (hp : ∀ p, parent = some p → p < r.size) (i : Nat) :
    (r.create name wait parent detached coroutine entry).1.get? i =
      if i = r.size then some (Task.fresh r.size name wait parent detached coroutine entry)
      else if parent = some i then (r.get? i).map (·.addChild r.size) else r.get? i := by
  have hpush :
      ∀ i, (r.tasks.push (Task.fresh r.size name wait parent detached coroutine entry))[i]? =
      if i = r.size then some (Task.fresh r.size name wait parent detached coroutine entry)
      else r.get? i := by
    intro i
    rw [Array.getElem?_push]
    rfl
  cases parent with
  | none => simp only [create, get?, hpush, reduceCtorEq, if_false]
  | some p =>
    have hlt := hp p rfl
    simp only [create, get?, modify, Array.getElem?_modify, hpush, Option.some.injEq]
    by_cases hi : i = r.size
    · subst hi
      rw [if_neg (by omega), if_pos rfl, if_pos rfl]
    · simp only [if_neg hi]

theorem get?_create_cases {r : Registry} {name : String} {wait : Wait} {parent : Option Nat}
    {detached : Bool} {coroutine : Option Coroutine} {entry : Option Entry}
    (hp : ∀ p, parent = some p → p < r.size) {i : Nat} {t' : Task}
    (h : (r.create name wait parent detached coroutine entry).1.get? i = some t') :
    (i = r.size ∧ t' = Task.fresh r.size name wait parent detached coroutine entry) ∨
      (i < r.size ∧ ∃ t, r.get? i = some t ∧
        t' = if parent = some i then t.addChild r.size else t) := by
  rw [get?_create hp] at h
  by_cases hi : i = r.size
  · rw [if_pos hi, Option.some.injEq] at h
    exact Or.inl ⟨hi, h.symm⟩
  · rw [if_neg hi] at h
    right
    by_cases hpi : parent = some i
    · rw [if_pos hpi, Option.map_eq_some_iff] at h
      obtain ⟨t, ht, rfl⟩ := h
      exact ⟨get?_eq_some_lt ht, t, ht, by rw [if_pos hpi]⟩
    · rw [if_neg hpi] at h
      exact ⟨get?_eq_some_lt h, t', h, by rw [if_neg hpi]⟩

/-! ### Ending a task -/

theorem get?_retire (r : Registry) (id i : Nat) : (r.retire id).get? i = r.get? i := by
  unfold retire
  split <;> rfl

theorem retire_of_mem {r : Registry} {id : Nat} (h : id ∈ r.pending) :
    r.retire id = { r with pending := r.pending.erase id, finished := r.finished ++ [id] } := by
  rw [retire, if_pos (List.contains_iff_mem.mpr h)]

@[simp] theorem size_retire (r : Registry) (t : Nat) : (r.retire t).size = r.size := by
  unfold retire
  split <;> rfl

/-! ### Raising flags -/

/-- `r'` is `r` with flags raised on some tasks; those let go are all in `gone`. -/
structure Flagged (r r' : Registry) (gone : Nat → Prop) : Prop where
  pending : r'.pending = r.pending
  finished : r'.finished = r.finished
  get? : ∀ i, ∃ c l, r'.get? i = (r.get? i).map (Task.flag c l) ∧ (l = true → gone i)

namespace Flagged

variable {r r' r'' : Registry} {gone : Nat → Prop}

protected theorem refl (r : Registry) (gone : Nat → Prop) : Flagged r r gone := by
  refine ⟨rfl, rfl, fun i => ⟨false, false, ?_, by simp⟩⟩
  cases r.get? i <;> simp [Task.flag_false]

protected theorem trans (h : Flagged r r' gone) (h' : Flagged r' r'' gone) :
    Flagged r r'' gone := by
  refine ⟨h'.pending.trans h.pending, h'.finished.trans h.finished, fun i => ?_⟩
  obtain ⟨c, l, he, hg⟩ := h.get? i
  obtain ⟨c', l', he', hg'⟩ := h'.get? i
  refine ⟨c || c', l || l', ?_, fun hl => ?_⟩
  · rw [he', he, Option.map_map]
    congr 1
    funext t
    exact Task.flag_flag c l c' l' t
  · rcases Bool.or_eq_true _ _ ▸ hl with hl | hl
    · exact hg hl
    · exact hg' hl

theorem mono {gone' : Nat → Prop} (h : Flagged r r' gone) (hg : ∀ i, gone i → gone' i) :
    Flagged r r' gone' :=
  ⟨h.pending, h.finished, fun i => by
    obtain ⟨c, l, he, hl⟩ := h.get? i
    exact ⟨c, l, he, fun h' => hg i (hl h')⟩⟩

theorem eq_some (h : Flagged r r' gone) {i : Nat} {t : Task} (ht : r.get? i = some t) :
    ∃ c l, r'.get? i = some (t.flag c l) ∧ (l = true → gone i) := by
  obtain ⟨c, l, he, hl⟩ := h.get? i
  exact ⟨c, l, by rw [he, ht, Option.map_some], hl⟩

theorem of_eq_some (h : Flagged r r' gone) {i : Nat} {t' : Task} (ht : r'.get? i = some t') :
    ∃ t c l, r.get? i = some t ∧ t' = t.flag c l ∧ (l = true → gone i) := by
  obtain ⟨c, l, he, hl⟩ := h.get? i
  rw [he, Option.map_eq_some_iff] at ht
  obtain ⟨t, ht, rfl⟩ := ht
  exact ⟨t, c, l, ht, rfl, hl⟩

theorem size (h : Flagged r r' gone) : r'.size = r.size := by
  refine size_eq fun i => ?_
  obtain ⟨c, l, he, _⟩ := h.get? i
  rw [he, Option.isSome_map]

/-- A fold of operations that each only raise flags. -/
theorem foldl {α : Type} {f : Registry → α → Registry} (as : List α)
    (hf : ∀ r', Flagged r r' gone → ∀ a ∈ as, Flagged r' (f r' a) gone) :
    Flagged r (as.foldl f r) gone := by
  suffices h : ∀ r', Flagged r r' gone → Flagged r (as.foldl f r') gone from h r (.refl r gone)
  induction as with
  | nil => exact fun _ => id
  | cons a as ih =>
    intro r' h
    exact ih (fun r'' h' b hb => hf r'' h' b (List.mem_cons_of_mem _ hb)) _
      (h.trans (hf r' h a (List.mem_cons_self ..)))

end Flagged

theorem flagged_modify (r : Registry) (id : Nat) (c l : Bool) :
    Flagged r (r.modify id (Task.flag c l)) (fun i => l = true ∧ i = id) := by
  refine ⟨rfl, rfl, fun i => ?_⟩
  by_cases hi : i = id
  · exact ⟨c, l, by rw [get?_modify, if_pos hi], fun h => ⟨h, hi⟩⟩
  · refine ⟨false, false, ?_, by simp⟩
    rw [get?_modify_ne hi]
    cases r.get? i <;> simp [Task.flag_false]

theorem flagCancelled_flagged (r : Registry) (ids : List Nat) (gone : Nat → Prop) :
    Flagged r (r.flagCancelled ids) gone := by
  refine Flagged.foldl ids fun r _ id _ => ?_
  have h := flagged_modify r id true false
  have he : (Task.flag true false) = fun t => { t with cancelled := true } := by
    funext t
    simp [Task.flag]
  rw [he] at h
  exact h.mono (by simp)

theorem cancelTree_flagged (r : Registry) (id : Nat) (gone : Nat → Prop) :
    Flagged r (r.cancelTree id) gone := flagCancelled_flagged r _ gone

theorem cancelAll_flagged (r : Registry) (ids : List Nat) (gone : Nat → Prop) :
    Flagged r (r.cancelAll ids) gone :=
  Flagged.foldl ids fun r _ id _ => cancelTree_flagged r id gone

/-- Letting go of a task raises the flag on that task alone, and cancels around it. -/
theorem letGo_flagged (r : Registry) (id : Nat) : Flagged r (r.letGo id) (· = id) := by
  have h := flagged_modify (r.cancelTree id) id false true
  have he : (Task.flag false true) = fun t => { t with abandoned := true } := by
    funext t
    simp [Task.flag]
  rw [he] at h
  exact (cancelTree_flagged r id _).trans (h.mono fun i hi => hi.2)

/-- The task itself is the first of its tree. -/
theorem mem_subtree_self {r : Registry} {id : Nat} {t : Task} (h : r.get? id = some t) :
    id ∈ r.subtree id := by
  simp only [subtree, subtreeTo, h, List.mem_cons, true_or]

/-- Whoever is listed is flagged. -/
theorem get?_flagCancelled_of_mem {r : Registry} {ids : List Nat} {id : Nat} {t : Task}
    (h : r.get? id = some t) (hid : id ∈ ids) :
    ∃ t', (r.flagCancelled ids).get? id = some t' ∧ t'.cancelled = true := by
  unfold flagCancelled
  induction ids generalizing r t with
  | nil => cases hid
  | cons i ids ih =>
    rw [List.foldl_cons]
    by_cases hi : id = i
    · subst hi
      have h' := get?_modify_of_eq_some (fun t => { t with cancelled := true }) h
      obtain ⟨c, l, he, _⟩ := (flagCancelled_flagged _ ids fun _ => False).eq_some h'
      exact ⟨_, he, by simp [Task.flag]⟩
    · exact ih (by rw [get?_modify_ne hi]; exact h) ((List.mem_cons.mp hid).resolve_left hi)

/-- Who is let go is cancelled and abandoned. -/
theorem get?_letGo_self {r : Registry} {id : Nat} {t : Task} (h : r.get? id = some t) :
    ∃ t', (r.letGo id).get? id = some t' ∧ t'.cancelled = true ∧ t'.abandoned = true := by
  obtain ⟨t', ht', hc⟩ := get?_flagCancelled_of_mem h (mem_subtree_self h)
  exact ⟨_, get?_modify_of_eq_some (fun t => { t with abandoned := true }) ht', hc, rfl⟩

theorem letGoAll_flagged (r : Registry) (ids : List Nat) :
    Flagged r (ids.foldl letGo r) (· ∈ ids) := by
  refine Flagged.foldl ids fun r' _ id hid => (letGo_flagged r' id).mono ?_
  rintro i rfl
  exact hid

end Registry

end Rehearsal
