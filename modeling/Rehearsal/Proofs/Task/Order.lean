import Mathlib.Data.List.Sort
import Rehearsal.Task.Batch

/-!
# In which order tasks run

Sorting by priority and picking batches are two definitions of one order. The sort puts each task
before the first of those behind it that need not come sooner; so whatever can be taken first, being
no later than anything else and before all the rest, is where the sorted list begins. A batch among
tasks that all have to wait is just that.
-/
namespace Rehearsal

variable {tasks : List Task}

theorem pairwise_sortByPriority (tasks : List Task) :
    (sortByPriority tasks).Pairwise fun a b => a.wait.le b.wait = true := by
  refine @List.pairwise_mergeSort Task (fun a b => a.wait.le b.wait) (fun a b c => Wait.le_trans)
    (fun a b => ?_) tasks
  rw [Bool.or_eq_true]
  exact Wait.le_total a.wait b.wait

theorem perm_sortByPriority (tasks : List Task) : (sortByPriority tasks).Perm tasks :=
  List.mergeSort_perm ..

@[simp] theorem sortByPriority_nil : sortByPriority [] = [] := List.mergeSort_nil

/-- A task takes its place before the first of those behind it that need not come sooner. -/
theorem sortByPriority_cons (a : Task) (tasks : List Task) :
    sortByPriority (a :: tasks) = (sortByPriority tasks).takeWhile (fun b => !a.wait.le b.wait) ++
      a :: (sortByPriority tasks).dropWhile (fun b => !a.wait.le b.wait) := by
  obtain ⟨sooner, later, hcons, htasks, hsooner⟩ :=
    @List.mergeSort_cons Task (fun a b => a.wait.le b.wait)
    (fun a b c => Wait.le_trans)
      (fun a b => by rw [Bool.or_eq_true]; exact Wait.le_total a.wait b.wait) a tasks
  have hsorted := pairwise_sortByPriority (a :: tasks)
  have hlater : ∀ b ∈ later, a.wait.le b.wait = true := by
    rw [sortByPriority, hcons] at hsorted
    exact fun b => List.rel_of_pairwise_cons (List.pairwise_append.mp hsorted).2.1
  have htake : later.takeWhile (fun b => !a.wait.le b.wait) = [] := by
    cases later with
    | nil => rfl
    | cons b later => simp [hlater b (List.mem_cons_self ..)]
  have hdrop : later.dropWhile (fun b => !a.wait.le b.wait) = later := by
    cases later with
    | nil => rfl
    | cons b later => simp [hlater b (List.mem_cons_self ..)]
  rw [show sortByPriority tasks = sooner ++ later from htasks, List.takeWhile_append_of_pos hsooner,
    List.dropWhile_append_of_pos hsooner, htake, hdrop, List.append_nil]
  exact hcons

/-- Tasks that are no later than any, and sooner than all the others, come first and in their order.
-/
theorem sortByPriority_eq_append {first : Task → Bool}
    (hfirst : ∀ a ∈ tasks, first a = true → ∀ b ∈ tasks, a.wait.le b.wait = true)
    (hrest : ∀ a ∈ tasks, first a = false → ∀ b ∈ tasks, first b = true →
      a.wait.le b.wait = false) :
    sortByPriority tasks =
      tasks.filter first ++ sortByPriority (tasks.filter fun a => !first a) := by
  induction tasks with
  | nil => rfl
  | cons a tasks ih =>
    have hsplit :=
      ih (fun b hb h c hc => hfirst b (List.mem_cons_of_mem _ hb) h c (List.mem_cons_of_mem _ hc))
      (fun b hb h c hc => hrest b (List.mem_cons_of_mem _ hb) h c (List.mem_cons_of_mem _ hc))
    have hmem : ∀ {b}, b ∈ sortByPriority tasks → b ∈ a :: tasks := fun hb =>
      List.mem_cons_of_mem _ ((perm_sortByPriority tasks).mem_iff.mp hb)
    cases ha : first a with
    | true =>
      have hhead : ∀ b ∈ sortByPriority tasks, (!a.wait.le b.wait) = false := fun b hb => by
        rw [hfirst a (List.mem_cons_self ..) ha b (hmem hb)]
        rfl
      have htake : (sortByPriority tasks).takeWhile (fun b => !a.wait.le b.wait) = [] := by
        cases h : sortByPriority tasks with
        | nil => rfl
        | cons b rest => rw [List.takeWhile_cons, hhead b (h ▸ List.mem_cons_self ..)]; rfl
      have hdrop := List.takeWhile_append_dropWhile (p := fun b => !a.wait.le b.wait)
        (l := sortByPriority tasks)
      rw [htake, List.nil_append] at hdrop
      rw [sortByPriority_cons, htake, hdrop, hsplit, List.filter_cons_of_pos ha,
        List.filter_cons_of_neg (by simp [ha])]
      rfl
    | false =>
      have hsooner : ∀ b ∈ tasks.filter first, (!a.wait.le b.wait) = true := fun b hb => by
        obtain ⟨hb, hfb⟩ := List.mem_filter.mp hb
        rw [hrest a (List.mem_cons_self ..) ha b (List.mem_cons_of_mem _ hb) hfb]
        rfl
      rw [sortByPriority_cons, hsplit, List.takeWhile_append_of_pos hsooner,
        List.dropWhile_append_of_pos hsooner, List.filter_cons_of_neg (by simp [ha]),
        List.filter_cons_of_pos (by simp [ha]), sortByPriority_cons, List.append_assoc]

/-! ### Batches -/

def Task.soonestOf (tasks : List Task) (t : Task) : Bool := tasks.all fun u => t.wait.le u.wait

theorem Task.soonestOf_iff {t : Task} :
    t.soonestOf tasks = true ↔ ∀ u ∈ tasks, t.wait.le u.wait = true := List.all_eq_true

/-- Whoever comes sooner than nobody else may be taken first. -/
theorem sortByPriority_eq_soonest_append (tasks : List Task) :
    sortByPriority tasks = tasks.filter (·.soonestOf tasks) ++
      sortByPriority (tasks.filter fun t => !t.soonestOf tasks) := by
  refine sortByPriority_eq_append (fun a _ ha => Task.soonestOf_iff.mp ha) fun a _ ha b _ hb => ?_
  cases hab : a.wait.le b.wait with
  | false => rfl
  | true =>
    have hsoonest : a.soonestOf tasks = true :=
      Task.soonestOf_iff.mpr fun u hu => Wait.le_trans hab (Task.soonestOf_iff.mp hb u hu)
    rw [ha] at hsoonest
    cases hsoonest

/-- A batch keeps the order of registration. -/
theorem selectReadyBatch_sublist (tasks : List Task) : (selectReadyBatch tasks).Sublist tasks := by
  unfold selectReadyBatch
  dsimp only
  split
  · exact List.filter_sublist.trans List.filter_sublist
  · exact List.filter_sublist.trans List.filter_sublist

theorem mem_ticks {n : Int} : n ∈ tasks.filterMap tick? ↔ ∃ t ∈ tasks, t.wait = .tick n := by
  rw [List.mem_filterMap]
  refine exists_congr fun t => and_congr_right fun _ => ?_
  unfold tick?
  split <;> simp_all

/-- Whoever is not a stand-in, and does not run at once, has to wait. -/
theorem Wait.isNow_eq_false {wait : Wait} (h : wait ≠ .now) (untiered : ∀ tier, wait ≠ .tier tier) :
    wait.isNow = false := by
  cases wait with
  | now => exact (h rfl).elim
  | tier tier => exact (untiered tier rfl).elim
  | tick _ => rfl
  | last => rfl

/-- When nobody can run at once, those at the least tick are those that come soonest. -/
theorem filter_inBatch_eq {eligible : List Task} {least : Int}
    (hwait : ∀ t ∈ eligible, (∃ n, t.wait = .tick n) ∨ t.wait = .last)
    (hleast : leastTick? eligible = some least) :
    eligible.filter (inBatch (some least)) = eligible.filter (·.soonestOf eligible) := by
  obtain ⟨hmem, hmin⟩ := List.min?_eq_some_iff.mp hleast
  obtain ⟨s, hs, hleast⟩ := mem_ticks.mp hmem
  refine List.filter_congr fun t ht => ?_
  have hiff : t.soonestOf eligible = true ↔ t.wait.le (.tick least) = true := by
    rw [Task.soonestOf_iff]
    refine ⟨fun h => hleast ▸ h s hs, fun h u hu => Wait.le_trans h ?_⟩
    rcases hwait u hu with ⟨n, hn⟩ | hu
    · simpa [hn, Wait.le, Wait.key] using hmin n (mem_ticks.mpr ⟨u, hu, hn⟩)
    · simp [hu, Wait.le, Wait.key]
  rw [Bool.eq_iff_iff, hiff]
  rcases hwait t ht with ⟨n, hn⟩ | ht
  · simp [inBatch, hn, Wait.le, Wait.key]
  · simp [inBatch, ht, Wait.le, Wait.key]

/-- **The batch among tasks that all have to wait is what comes soonest.** -/
theorem selectReadyBatch_eq (h : ∀ t ∈ tasks.filter (·.isSelectable), t.wait.isNow = false) :
    selectReadyBatch tasks =
      (tasks.filter (·.isSelectable)).filter (·.soonestOf (tasks.filter (·.isSelectable))) := by
  unfold selectReadyBatch
  generalize tasks.filter (·.isSelectable) = eligible at h
  have hwait : ∀ t ∈ eligible, (∃ n, t.wait = .tick n) ∨ t.wait = .last := by
    intro t ht
    have hnow := h t ht
    cases hw : t.wait with
    | tick n => exact Or.inl ⟨n, rfl⟩
    | last => exact Or.inr rfl
    | now => rw [hw] at hnow; cases hnow
    | tier _ => rw [hw] at hnow; cases hnow
  cases hleast : leastTick? eligible with
  | none =>
    have hlast : ∀ t ∈ eligible, t.wait = .last := by
      intro t ht
      refine (hwait t ht).resolve_left ?_
      rintro ⟨n, hn⟩
      have hmem := mem_ticks.mpr ⟨t, ht, hn⟩
      rw [List.min?_eq_none_iff.mp hleast] at hmem
      cases hmem
    have hnone : eligible.filter (inBatch none) = [] := by
      refine List.filter_eq_nil_iff.mpr fun t ht => ?_
      simp [inBatch, hlast t ht]
    simp only [hleast, hnone, List.isEmpty_nil, if_true]
    refine List.filter_congr fun t ht => ?_
    have hsoonest : t.soonestOf eligible = true :=
      Task.soonestOf_iff.mpr fun u hu => by rw [hlast t ht, hlast u hu]; exact Wait.le_refl _
    rw [hsoonest]
    simp [hlast t ht]
  | some least =>
    obtain ⟨s, hs, hs'⟩ := mem_ticks.mp (List.min?_eq_some_iff.mp hleast).1
    have hin : s ∈ eligible.filter (inBatch (some least)) :=
      List.mem_filter.mpr ⟨hs, by simp [inBatch, hs']⟩
    have hne : (eligible.filter (inBatch (some least))).isEmpty = false := by
      simpa using List.ne_nil_of_mem hin
    simp only [hleast, hne, Bool.false_eq_true, if_false]
    exact filter_inBatch_eq hwait hleast

end Rehearsal
