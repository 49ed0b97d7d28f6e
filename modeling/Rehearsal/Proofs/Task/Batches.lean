import Rehearsal.Proofs.Task.Order

/-!
# Batches

A batch holds every task that may run next and no other, in the order of registration: the tasks
that are "now" together with those at the least tick, and those that come last only where there are
none of these. It is empty only when nobody can be picked. So tasks that can all be picked are used
up batch by batch, each of them once; and if none of them is "now", the batches one after another
are the list sorted by priority.
-/
namespace Rehearsal

variable {tasks : List Task} {t : Task}

/-! ### Who is picked -/

def Task.HasLeastTick (tasks : List Task) (t : Task) : Prop :=
  ∃ n, t.wait = .tick n ∧ ∀ u ∈ tasks, u.isSelectable = true → ∀ m, u.wait = .tick m → n ≤ m

/-- The task is among those that run next before any that come last. -/
def Task.Foremost (tasks : List Task) (t : Task) :
    Prop := t.wait.isNow = true ∨ t.HasLeastTick tasks

/-- Some task has the least tick, if any has one. -/
theorem exists_leastTick {n : Int} (ht : t ∈ tasks) (hw : t.wait = .tick n) :
    ∃ t' ∈ tasks, ∃ c, t'.wait = .tick c ∧ leastTick? tasks = some c := by
  cases hmin : leastTick? tasks with
  | none =>
    have hmem := mem_ticks.mpr ⟨t, ht, hw⟩
    rw [List.min?_eq_none_iff.mp hmin] at hmem
    cases hmem
  | some c =>
    obtain ⟨t', ht', hc⟩ := mem_ticks.mp (List.min?_mem hmin)
    exact ⟨t', ht', c, hc, rfl⟩

theorem inBatch_iff (ht : t ∈ tasks.filter (·.isSelectable)) :
    inBatch (leastTick? (tasks.filter (·.isSelectable))) t = true ↔ t.Foremost tasks := by
  cases hw : t.wait with
  | now | tier _ => simp [inBatch, Task.Foremost, Wait.isNow, hw]
  | last => simp [inBatch, Task.Foremost, Task.HasLeastTick, Wait.isNow, hw]
  | tick n =>
    obtain ⟨t', ht', c, hc, hleast⟩ := exists_leastTick ht hw
    have hmin := (List.min?_eq_some_iff.mp hleast).2
    have hbatch : inBatch (leastTick? (tasks.filter (·.isSelectable))) t = true ↔ n ≤ c := by
      simp [inBatch, hw, hleast]
    have hforemost : t.Foremost tasks ↔
        ∀ u ∈ tasks, u.isSelectable = true → ∀ m, u.wait = .tick m → n ≤ m := by
      simp [Task.Foremost, Task.HasLeastTick, Wait.isNow, hw]
    rw [hbatch, hforemost]
    constructor
    · intro hnc u hu hs m hm
      exact hnc.trans (hmin m (mem_ticks.mpr ⟨u, List.mem_filter.mpr ⟨hu, hs⟩, hm⟩))
    · intro h
      obtain ⟨hmem, hs⟩ := List.mem_filter.mp ht'
      exact h t' hmem hs c hc

/-- **Who is in a batch.** -/
theorem mem_selectReadyBatch : t ∈ selectReadyBatch tasks ↔ t ∈ tasks ∧ t.isSelectable = true ∧
    (t.Foremost tasks ∨ t.wait = .last ∧ ∀ u ∈ tasks, u.isSelectable = true →
      ¬u.Foremost tasks) := by
  have hforemost : ∀ u, u ∈ (tasks.filter (·.isSelectable)).filter
      (inBatch (leastTick? (tasks.filter (·.isSelectable)))) ↔
        u ∈ tasks ∧ u.isSelectable = true ∧ u.Foremost tasks := by
    intro u
    rw [List.mem_filter, and_congr_right fun hu => inBatch_iff hu, List.mem_filter, and_assoc]
  unfold selectReadyBatch
  dsimp only
  split
  · rename_i hempty
    have hnone : ∀ u ∈ tasks, u.isSelectable = true → ¬u.Foremost tasks := fun u hu hs hf => by
      have hmem := (hforemost u).mpr ⟨hu, hs, hf⟩
      rw [List.isEmpty_iff.mp hempty] at hmem
      cases hmem
    rw [List.mem_filter, List.mem_filter, and_assoc, decide_eq_true_eq]
    refine and_congr_right fun ht => and_congr_right fun hs => ⟨fun hw => .inr ⟨hw, hnone⟩, ?_⟩
    rintro (hf | ⟨hw, -⟩)
    · exact (hnone t ht hs hf).elim
    · exact hw
  · rename_i hne
    obtain ⟨u, hu⟩ := List.exists_mem_of_ne_nil _ (mt List.isEmpty_iff.mpr hne)
    obtain ⟨hmem, hs, hf⟩ := (hforemost u).mp hu
    rw [hforemost]
    refine and_congr_right fun _ => and_congr_right fun _ => ⟨.inl, ?_⟩
    rintro (hf' | ⟨-, hnone⟩)
    · exact hf'
    · exact (hnone u hmem hs hf).elim

/-- Whenever a task can be selected there is a batch. -/
theorem selectReadyBatch_ne_nil (ht : t ∈ tasks) (hs : t.isSelectable = true) :
    selectReadyBatch tasks ≠ [] := by
  by_cases hforemost : ∃ u ∈ tasks, u.isSelectable = true ∧ u.Foremost tasks
  · obtain ⟨u, hu, hs, hf⟩ := hforemost
    exact List.ne_nil_of_mem (mem_selectReadyBatch.mpr ⟨hu, hs, .inl hf⟩)
  · push Not at hforemost
    have hlast : t.wait = .last := by
      cases hw : t.wait with
      | last => rfl
      | now | tier _ => exact (hforemost t ht hs (.inl (by rw [hw]; rfl))).elim
      | tick n =>
        obtain ⟨t', ht', c, hc, hleast⟩ := exists_leastTick (List.mem_filter.mpr ⟨ht, hs⟩) hw
        obtain ⟨hmem, hs'⟩ := List.mem_filter.mp ht'
        exact (hforemost t' hmem hs' ((inBatch_iff ht').mp (by simp [inBatch, hc, hleast]))).elim
    exact List.ne_nil_of_mem (mem_selectReadyBatch.mpr ⟨ht, hs, .inr ⟨hlast, hforemost⟩⟩)

/-! ### Taking batches out until none is left -/

def withoutBatch (batch tasks : List Task) : List Task :=
  tasks.filter fun t => !(batch.map (·.id)).contains t.id

theorem withoutBatch_sublist (batch tasks : List Task) : (withoutBatch batch tasks).Sublist tasks :=
  List.filter_sublist

theorem length_withoutBatch_lt (h : selectReadyBatch tasks ≠ []) :
    (withoutBatch (selectReadyBatch tasks) tasks).length < tasks.length := by
  obtain ⟨t, ht⟩ := List.exists_mem_of_ne_nil _ h
  refine List.length_filter_lt_length_iff_exists.mpr ⟨t, (mem_selectReadyBatch.mp ht).1, ?_⟩
  simpa using ⟨t, ht, rfl⟩

/-- The batches in which tasks are picked and taken out, until nobody can be. -/
def drain (tasks : List Task) : List (List Task) :=
  if _ : selectReadyBatch tasks = [] then []
  else selectReadyBatch tasks :: drain (withoutBatch (selectReadyBatch tasks) tasks)
termination_by tasks.length
decreasing_by exact length_withoutBatch_lt ‹_›

/-- Where ids tell tasks apart, what is left of a list without some of its tasks are the others. -/
theorem withoutBatch_filter (distinct : (tasks.map (·.id)).Nodup) (p : Task → Bool) :
    withoutBatch (tasks.filter p) tasks = tasks.filter fun t => !p t := by
  refine List.filter_congr fun t ht => congrArg (!·) ?_
  have hsame : ∀ u ∈ tasks, u.id = t.id → u = t :=
    fun u hu => List.inj_on_of_nodup_map distinct hu ht
  rw [Bool.eq_iff_iff, List.contains_iff_mem, List.mem_map]
  constructor
  · rintro ⟨u, hu, hid⟩
    obtain ⟨hmem, hp⟩ := List.mem_filter.mp hu
    exact hsame u hmem hid ▸ hp
  · exact fun hp => ⟨t, List.mem_filter.mpr ⟨ht, hp⟩, rfl⟩

/-- A batch is part of the tasks by what it picks. -/
theorem exists_selectReadyBatch_eq_filter (tasks : List Task) :
    ∃ p, selectReadyBatch tasks = tasks.filter p := by
  unfold selectReadyBatch
  dsimp only
  split <;> exact ⟨_, List.filter_filter⟩

theorem drain_of_nil (h : selectReadyBatch tasks = []) :
    drain tasks = [] := by rw [drain, dif_pos h]

theorem drain_of_ne_nil (h : selectReadyBatch tasks ≠ []) :
    drain tasks =
      selectReadyBatch tasks :: drain (withoutBatch (selectReadyBatch tasks) tasks) := by
  rw [drain, dif_neg h]

structure Drainable (tasks : List Task) : Prop where
  distinct : (tasks.map (·.id)).Nodup
  ready : ∀ t ∈ tasks, t.isSelectable = true

namespace Drainable

variable (h : Drainable tasks)
include h

theorem sublist {tasks' : List Task} (hsub : tasks'.Sublist tasks) : Drainable tasks' where
  distinct := h.distinct.sublist (hsub.map _)
  ready t ht := h.ready t (hsub.subset ht)

theorem eq_nil (hbatch : selectReadyBatch tasks = []) : tasks = [] :=
  List.eq_nil_iff_forall_not_mem.mpr fun t ht => selectReadyBatch_ne_nil ht (h.ready t ht) hbatch

/-- Each task is picked once. -/
theorem flatten_drain_perm : (drain tasks).flatten.Perm tasks := by
  induction tasks using drain.induct with
  | case1 tasks hbatch =>
    rw [drain_of_nil hbatch, h.eq_nil hbatch]
    exact .refl _
  | case2 tasks hbatch ih =>
    have hrest := ih (h.sublist (withoutBatch_sublist ..))
    obtain ⟨p, hp⟩ := exists_selectReadyBatch_eq_filter tasks
    rw [drain_of_ne_nil hbatch, List.flatten_cons]
    refine (hrest.append_left _).trans ?_
    rw [hp, withoutBatch_filter h.distinct]
    exact List.filter_append_perm p tasks

/-- Where everybody has to wait, the batches are in the order of priority. -/
theorem flatten_drain_eq (waiting : ∀ t ∈ tasks, t.wait.isNow = false) :
    (drain tasks).flatten = sortByPriority tasks := by
  induction tasks using drain.induct with
  | case1 tasks hbatch =>
    rw [drain_of_nil hbatch, h.eq_nil hbatch, sortByPriority_nil]
    rfl
  | case2 tasks hbatch ih =>
    have hsub := withoutBatch_sublist (selectReadyBatch tasks) tasks
    have hrest := ih (h.sublist hsub) fun t ht => waiting t (hsub.subset ht)
    have hready : tasks.filter (·.isSelectable) = tasks := List.filter_eq_self.mpr h.ready
    have hsoonest : selectReadyBatch tasks = tasks.filter (·.soonestOf tasks) := by
      rw [selectReadyBatch_eq (hready.symm ▸ waiting), hready]
    calc (drain tasks).flatten
        = selectReadyBatch tasks ++ sortByPriority
          (withoutBatch (selectReadyBatch tasks) tasks) := by
          rw [drain_of_ne_nil hbatch, List.flatten_cons, hrest]
      _ = tasks.filter (·.soonestOf tasks) ++ sortByPriority
          (tasks.filter fun t => !t.soonestOf tasks) := by
          rw [hsoonest, withoutBatch_filter h.distinct]
      _ = sortByPriority tasks := (sortByPriority_eq_soonest_append tasks).symm

end Drainable

/-- **A batch is exactly what runs next, and tasks that wait are drained in the order of priority.**
Of the tasks that can be picked a batch holds those that are "now" or have the least tick, or where
there are none of them those that come last: each once, in the order of the list, and it is empty
only if there is nobody to pick. Picking batch after batch of tasks that are all ready takes each of
them once, and sorts them if none of them is "now". -/
theorem batches_exact_and_drained (tasks : List Task) :
    (selectReadyBatch tasks).Sublist tasks ∧
    (∀ t, t ∈ selectReadyBatch tasks ↔ t ∈ tasks ∧ t.isSelectable = true ∧
      (t.Foremost tasks ∨ t.wait = .last ∧ ∀ u ∈ tasks, u.isSelectable =
        true → ¬u.Foremost tasks)) ∧
    (selectReadyBatch tasks = [] ↔ ∀ t ∈ tasks, t.isSelectable = false) ∧
    ((tasks.map (·.id)).Nodup → (selectReadyBatch tasks).Nodup ∧
      ((∀ t ∈ tasks, t.isSelectable = true) → (drain tasks).flatten.Perm tasks ∧
        ((∀ t ∈ tasks, t.wait.isNow = false) → (drain tasks).flatten = sortByPriority tasks))) := by
  have hsub := selectReadyBatch_sublist tasks
  refine ⟨hsub, fun t => mem_selectReadyBatch, ⟨fun hnil t ht => ?_, fun hnone => ?_⟩,
    fun distinct => ⟨(distinct.of_map _).sublist hsub, fun ready => ?_⟩⟩
  · exact Bool.eq_false_iff.mpr fun hs => selectReadyBatch_ne_nil ht hs hnil
  · refine List.eq_nil_iff_forall_not_mem.mpr fun t hbatch => ?_
    obtain ⟨ht, hs, -⟩ := mem_selectReadyBatch.mp hbatch
    exact Bool.false_ne_true ((hnone t ht).symm.trans hs)
  · have hdrain : Drainable tasks := ⟨distinct, ready⟩
    exact ⟨hdrain.flatten_drain_perm, hdrain.flatten_drain_eq⟩

/-- Two tasks at one tick between a later one and one that comes last. -/
def waitingTasks : List Task :=
  [Wait.tick 50, .tick 10, .last, .tick 10].mapIdx fun i wait =>
    .fresh i "waiting" wait none false none none

/-- The two that come soonest are picked together, and the others follow in the order of priority.
-/
theorem waiting_tasks_drained : (selectReadyBatch waitingTasks).map (·.id) = [1, 3] ∧
    (drain waitingTasks).flatten.Perm waitingTasks ∧ (drain waitingTasks).flatten =
      sortByPriority waitingTasks := by
  have distinct : (waitingTasks.map (·.id)).Nodup := by decide
  have ready : ∀ t ∈ waitingTasks, t.isSelectable = true := by decide
  have nobodyNow : ∀ t ∈ waitingTasks, t.wait.isNow = false := by decide
  obtain ⟨-, -, -, drained⟩ := batches_exact_and_drained waitingTasks
  obtain ⟨hperm, hsorted⟩ := (drained distinct).2 ready
  exact ⟨by decide, hperm, hsorted nobodyNow⟩

end Rehearsal
