import Mathlib.Data.Fintype.Pigeonhole
import Mathlib.Logic.Relation
import Rehearsal.Proofs.Engine.Delivery
import Rehearsal.Proofs.Engine.GivingUp
import Rehearsal.Proofs.Engine.WakeUp
import Rehearsal.Proofs.Task.Batches

/-!
# A reported deadlock is a circular wait

The main loop reports a deadlock when no pending task can be selected. Nothing runs then and nothing
is left to hear of, so every pending task stands blocked behind tasks that are unfinished, hence
pending as well: the report lists them all, and from each of them one can follow dependencies for
ever without leaving it.
-/
namespace Rehearsal

variable {σ : Type}

/-! ### Circular waits -/

namespace TaskDump

/-- An entry of the dump for `a` lists `b` as a dependency. -/
def DependsOn (d : TaskDump) (a b : Nat) : Prop :=
  ∃ e ∈ d.entries, e.id = a ∧ b ∈ e.dependencies

/-- Every task of the dump depends on something, and on tasks of the dump only. -/
structure Circular (d : TaskDump) : Prop where
  nonempty : d.entries ≠ []
  depends : ∀ e ∈ d.entries, e.dependencies ≠ []
  closed : ∀ e ∈ d.entries, ∀ x ∈ e.dependencies, x ∈ d.ids

namespace Circular

variable {d : TaskDump}

theorem exists_next (h : d.Circular) {a : Nat} (ha : a ∈ d.ids) : ∃ b ∈ d.ids, d.DependsOn a b := by
  obtain ⟨e, he, rfl⟩ := List.mem_map.mp ha
  obtain ⟨b, hb⟩ := List.exists_mem_of_ne_nil _ (h.depends e he)
  exact ⟨b, h.closed e he b hb, e, he, rfl, hb⟩

/-- From every task of the dump dependencies can be followed for ever inside it. -/
theorem exists_path (h : d.Circular) {a : Nat} (ha : a ∈ d.ids) :
    ∃ path : Nat → Nat, path 0 = a ∧ ∀ k, path k ∈ d.ids ∧ d.DependsOn (path k) (path (k + 1)) := by
  choose next hmem hdep using fun x : { x // x ∈ d.ids } => h.exists_next x.2
  let follow : { x // x ∈ d.ids } → { x // x ∈ d.ids } := fun x => ⟨next x, hmem x⟩
  refine ⟨fun k => (follow^[k] ⟨a, ha⟩).1, rfl, fun k => ⟨(follow^[k] ⟨a, ha⟩).2, ?_⟩⟩
  show d.DependsOn _ (follow^[k + 1] ⟨a, ha⟩).1
  rw [Function.iterate_succ_apply']
  exact hdep _

theorem reaches {path : Nat → Nat} (hpath : ∀ k, d.DependsOn (path k) (path (k + 1))) (k n : Nat) :
    Relation.ReflTransGen d.DependsOn (path k) (path (k + n)) := by
  induction n with
  | zero => exact .refl
  | succ n ih => exact .tail ih (hpath (k + n))

/-- A path inside a finite dump comes back to where it has been. -/
theorem exists_cycle (h : d.Circular) {a : Nat} (ha : a ∈ d.ids) :
    ∃ b ∈ d.ids, Relation.ReflTransGen d.DependsOn a b ∧ Relation.TransGen d.DependsOn b b := by
  obtain ⟨path, rfl, hpath⟩ := h.exists_path ha
  have hback : ∃ k l, k < l ∧ path k = path l := by
    obtain ⟨k, l, hne, he⟩ := Finite.exists_ne_map_eq_of_infinite
      (fun k => (⟨path k, (hpath k).1⟩ : { x // x ∈ d.ids }))
    have he' : path k = path l := congrArg Subtype.val he
    rcases Nat.lt_or_gt_of_ne hne with hlt | hlt
    · exact ⟨k, l, hlt, he'⟩
    · exact ⟨l, k, hlt, he'.symm⟩
  obtain ⟨k, l, hkl, he⟩ := hback
  have hstep := fun k => (hpath k).2
  refine ⟨path k, (hpath k).1, by simpa using reaches hstep 0 k, .head' (hstep k) ?_⟩
  obtain ⟨n, rfl⟩ := Nat.exists_eq_add_of_lt hkl
  have hrest := reaches hstep (k + 1) n
  rwa [show k + 1 + n = k + n + 1 by omega, ← he] at hrest

end Circular

end TaskDump

namespace Registry

variable {r : Registry}

/-- The pending tasks are the unfinished ones. -/
theorem Forest.mem_pendingTasks (h : r.Forest) {t : Task} :
    t ∈ r.pendingTasks ↔ ∃ i, r.get? i = some t ∧ t.done = false := by
  unfold pendingTasks select
  rw [List.mem_filterMap]
  constructor
  · rintro ⟨i, hi, ht⟩
    obtain ⟨u, hu, hd⟩ := h.mem_pending.mp hi
    rw [ht, Option.some.injEq] at hu
    exact ⟨i, ht, hu ▸ hd⟩
  · rintro ⟨i, ht, hd⟩
    exact ⟨i, h.mem_pending.mpr ⟨t, ht, hd⟩, ht⟩

/-- A dump lists the pending tasks in their order. -/
theorem Forest.dump_ids {header : String} {d : TaskDump} (h : r.Forest)
    (written : r.dump header = .ok d) : d.ids = r.pending := by
  have hids : ∀ ids : List Nat, (∀ i ∈ ids, ∃ t, r.get? i = some t) →
      (r.select ids).map (·.id) = ids := by
    intro ids
    induction ids with
    | nil => exact fun _ => rfl
    | cons i ids ih =>
      intro hex
      obtain ⟨t, ht⟩ := hex i (List.mem_cons_self ..)
      have hrest := ih fun j hj => hex j (List.mem_cons_of_mem _ hj)
      unfold select at hrest ⊢
      rw [List.filterMap_cons, ht, List.map_cons, h.id_eq ht, hrest]
  have hpending := hids r.pending fun i hi => by
    obtain ⟨t, ht, _⟩ := h.mem_pending.mp hi
    exact ⟨t, ht⟩
  rw [eq_of_dump written, TaskDump.ids, List.map_map]
  exact hpending

/-- What a task waits on, when nothing is left to hear of, is unfinished. -/
theorem dependencies_of_standing (forest : r.Forest) {i : Nat} {t : Task} (ht : r.get? i = some t)
    (hs : t.Standing r []) (hc : ∀ c ∈ t.children, r.Unfinished c) (hd : t.done = false)
    (hr : t.running = false) (hf : ¬ t.Unstarted) :
    t.dependencies r.pendingTasks ≠ [] ∧ ∀ d ∈ t.dependencies r.pendingTasks, r.Unfinished d := by
  unfold Task.dependencies
  cases hs with
  | ended hd' _ => exact (Bool.false_ne_true (hd.symm.trans hd')).elim
  | fresh h => exact (hf ⟨h.interruption, h.children, h.coroutine⟩).elim
  | active _ hr' => exact (Bool.false_ne_true (hr.symm.trans hr')).elim
  | waiting b h =>
    have hk := h.awaits.kind_ne_children
    have htier : t.wait ≠ .tier .children := by
      rw [h.tier]
      cases hkind : b.kind with
      | children => exact (hk hkind).elim
      | _ => decide
    rw [if_neg htier, h.interruption]
    exact ⟨h.awaits.nonempty, fun d hmem => (h.hears d hmem).unfinished⟩
  | holding b h =>
    have htier : t.wait = .tier .children := by
      rw [h.tier, h.kind]
      rfl
    rw [if_pos htier, forest.id_eq ht]
    constructor
    · -- a child that is not over is pending, and its parent is the task
      obtain ⟨c, hmem⟩ := List.exists_mem_of_ne_nil _ h.children
      obtain ⟨u, hu, hopen⟩ := hc c hmem
      obtain ⟨u', hu', hp⟩ := forest.parent_eq ht hmem
      rw [hu, Option.some.injEq] at hu'
      subst hu'
      have hpending : u ∈ r.pendingTasks := forest.mem_pendingTasks.mpr ⟨c, hu, hopen⟩
      exact List.ne_nil_of_mem (List.mem_map_of_mem (List.mem_filter.mpr ⟨hpending, by simp [hp]⟩))
    · intro d hmem
      obtain ⟨u, hu, rfl⟩ := List.mem_map.mp hmem
      obtain ⟨j, hj, hopen⟩ := forest.mem_pendingTasks.mp (List.mem_filter.mp hu).1
      exact ⟨u, (forest.id_eq hj).symm ▸ hj, hopen⟩

end Registry

/-- Where nothing goes on and nothing can be selected, the pending tasks wait for each other. -/
theorem circular_of_stuck {begun : Nat → Prop} {r : Registry} {root : Nat}
    (core : Core begun r [] [.loop root] none) (heard : r.finished = [])
    (hopen : r.pending ≠ []) (stuck : selectReadyBatch r.pendingTasks = []) {header : String}
    {d : TaskDump} (written : r.dump header = .ok d) : d.Circular := by
  have hquiet := Registry.quiet_of_core core heard
  have hnews : ∀ i, Rehearsal.news r [] [.loop root] i = [] := by
    intro i
    simp [Rehearsal.news, Frame.tells, heard]
  have hids := core.forest.dump_ids written
  have hentry : ∀ e ∈ d.entries, e.dependencies ≠ [] ∧ ∀ d ∈ e.dependencies, r.Unfinished d := by
    intro e he
    rw [Registry.eq_of_dump written] at he
    obtain ⟨t, ht, rfl⟩ := List.mem_map.mp he
    obtain ⟨i, hi, hd⟩ := core.forest.mem_pendingTasks.mp ht
    refine Registry.dependencies_of_standing core.forest hi (hnews i ▸ core.stands hi)
      (fun c hc => (hnews i ▸ core.hears hi c hc).unfinished) hd (hquiet.idle i t hi) fun hun => ?_
    refine selectReadyBatch_ne_nil ht ?_ stuck
    simp [Task.isSelectable, Task.isBlocked, hd, hun.children, hun.interruption, hquiet.idle i t hi]
  refine ⟨fun hnil => hopen ?_, fun e he => (hentry e he).1, fun e he x hx => ?_⟩
  · rw [← hids, TaskDump.ids, hnil, List.map_nil]
  · rw [hids]
    exact core.forest.mem_pending.mpr ((hentry e he).2 x hx)

namespace Config

/-- The run has been given up over the tasks that `d` lists. -/
structure Deadlocked (c : Config σ) (d : TaskDump) : Prop where
  stack : c.stack = [] ∨ ∃ root, c.stack = [.loop root]
  forest : c.machine.registry.Forest
  ids : d.ids = c.machine.registry.pending
  circular : d.Circular

theorem exists_root (w : World σ) (o : RunOptions) (outer : σ) (name : String) (g n : Nat) :
    ∃ u, (run w o n (launched outer name g)).machine.registry.get? 0 = some u := by
  have hroot : (launched outer name g).machine.registry.get? 0 = some _ :=
    Registry.Forest.get?_create_new (r := Registry.empty) name .now none false
      (some (.ofGenerator g)) none nofun
  obtain ⟨u, hu, _⟩ := onward_run w o hroot n
  exact ⟨u, hu⟩

/-- The main loop gives up a run with the tasks as they are. -/
theorem continueLoop_abort {o : RunOptions} {m : Machine σ} {root : Nat} {f : Failure}
    (h : (continueLoop o m root).control = .abort f) :
    (continueLoop o m root).machine.registry = m.registry ∧
      (continueLoop o m root).stack = [.loop root] := by
  rcases continueLoop_cases o m root with ⟨_, heq⟩ | ⟨_, ⟨f', heq⟩ | ⟨_, _, trace, heq⟩⟩
  · rw [heq] at h
    cases h
  · rw [heq]
    exact ⟨rfl, rfl⟩
  · rw [heq] at h
    cases h

theorem deadlocked_of_abort {w : World σ} (hw : w.Candid) (o : RunOptions)
    (outer : σ) (name : String)
    (g : Nat) {n : Nat} {d : TaskDump} {s : Nat}
    (h : (run w o n (launched outer name g)).control = .abort (.harness (.stopped d s .deadlock))) :
    (run w o n (launched outer name g)).Deadlocked d := by
  induction n with
  | zero => cases h
  | succ n ih =>
    rw [run_succ] at h ⊢
    split
    · rename_i hf
      rw [if_pos hf] at h
      exact ih h
    rename_i hf
    rw [if_neg hf] at h
    obtain ⟨begun, hs⟩ := sound_reached w o outer name g n
    obtain ⟨root, hroot⟩ := exists_root w o outer name g n
    generalize run w o n (launched outer name g) = c at h hf hs hroot ih ⊢
    by_cases hgoing : ∀ f, c.control ≠ .abort f
    · obtain ⟨i, below, hcontrol, hstack, hopen, hstuck, written, _⟩ :=
        (grounds_of_step w o hgoing h).deadlock_inv hw
      obtain ⟨m, stack, control⟩ := c
      obtain rfl : control = .done := hcontrol
      obtain rfl : stack = .loop i :: below := hstack
      cases hs with
      | resting _ nested => cases nested
      | looking core heard =>
        have hloop : (continueLoop o m 0).control = _ := h
        obtain ⟨hm, hstack⟩ := continueLoop_abort hloop
        have hpending : m.registry.pending ≠ [] := by
          intro hnil
          have hdone : root.done = true := by
            by_contra hd
            have hmem := core.forest.mem_pending.mpr ⟨root, hroot, by simpa using hd⟩
            rw [hnil] at hmem
            cases hmem
          have hover : m.registry.isDone 0 = true := Registry.isDone_iff.mpr ⟨root, hroot, hdone⟩
          simp [settled, hover, hnil] at hopen
        have hstep : step w o ⟨m, [.loop 0], .done⟩ = continueLoop o m 0 := rfl
        rw [hstep]
        exact ⟨Or.inr ⟨0, hstack⟩, hm ▸ core.forest, hm ▸ core.forest.dump_ids written,
          circular_of_stuck core heard hpending hstuck written⟩
    · -- the run has been given up before: what is left of the stack goes
      simp only [not_forall, not_not] at hgoing
      obtain ⟨f, hcontrol⟩ := hgoing
      obtain ⟨m, stack, control⟩ := c
      obtain rfl : control = .abort f := hcontrol
      have hstep : step w o ⟨m, stack, .abort f⟩ = unwind m f stack := rfl
      rw [hstep] at h ⊢
      have hkeep : (unwind m f stack).control = .abort f := by
        unfold unwind
        split <;> rfl
      rw [hkeep, Control.abort.injEq] at h
      subst h
      have hd := ih rfl
      rcases hd.stack with hnil | ⟨i, hloop⟩
      · obtain rfl : stack = [] := hnil
        exact hd
      · obtain rfl : stack = [.loop i] := hloop
        exact ⟨Or.inl rfl, hd.forest, hd.ids, hd.circular⟩

/-- In a quiet registry a task that has not been started can be selected. -/
theorem selectable_of_unstarted {r : Registry} (forest : r.Forest) (hquiet : r.Quiet) {i : Nat}
    {t : Task} (ht : r.get? i = some t) (hd : t.done = false) (hun : t.Unstarted) :
    selectReadyBatch r.pendingTasks ≠ [] := by
  refine selectReadyBatch_ne_nil (forest.mem_pendingTasks.mpr ⟨i, ht, hd⟩) ?_
  simp [Task.isSelectable, Task.isBlocked, hd, hun.children, hun.interruption, hquiet.idle i t ht]

end Config

/-- **A reported deadlock is a circular wait.** When a run is given up over a deadlock, the dump
lists exactly the unfinished tasks, in the order of their registration; each of them depends on
something, and what it depends on is listed as well, so that from each of them dependencies can be
followed for ever inside the dump, and into a cycle. Where at a turn of the main loop some pending
task has not been started, that turn does not end in a deadlock. -/
theorem deadlock_is_circular_wait (w : World σ) (hw : w.Candid) (o : RunOptions) (outer : σ)
    (name : String) (g n : Nat) :
    (∀ d s, (Config.run w o n (Config.launched outer name g)).control =
        .abort (.harness (.stopped d s .deadlock)) →
      d.Circular ∧ d.ids.Pairwise (· < ·) ∧
      (∀ i, i ∈ d.ids ↔
        (Config.run w o n (Config.launched outer name g)).machine.registry.Unfinished i) ∧
      ∀ i ∈ d.ids,
        (∃ path : Nat → Nat, path 0 = i ∧
          ∀ k, path k ∈ d.ids ∧ d.DependsOn (path k) (path (k + 1))) ∧
        ∃ j ∈ d.ids, Relation.ReflTransGen d.DependsOn i j ∧ Relation.TransGen d.DependsOn j j) ∧
    ∀ i t, (Config.run w o n (Config.launched outer name g)).AtLoop →
      (Config.run w o n (Config.launched outer name g)).machine.get? i = some t →
      t.done = false → t.Unstarted → ∀ d s,
      (Config.run w o (n + 1) (Config.launched outer name g)).control ≠
        .abort (.harness (.stopped d s .deadlock)) := by
  constructor
  · intro d s h
    have hd := Config.deadlocked_of_abort hw o outer name g h
    refine ⟨hd.circular, hd.ids ▸ hd.forest.sorted, fun i => ?_, fun i hi => ?_⟩
    · rw [hd.ids]
      exact hd.forest.mem_pending
    · exact ⟨hd.circular.exists_path hi, hd.circular.exists_cycle hi⟩
  · intro i t hloop ht hopen hun d s h
    obtain ⟨begun, hs⟩ := Config.sound_reached w o outer name g n
    rw [Config.run_succ] at h
    generalize Config.run w o n (Config.launched outer name g) = c at hloop ht hs h
    have hgoing : ∀ f, c.control ≠ .abort f := by
      intro f hf
      rw [hloop.1] at hf
      cases hf
    split at h
    · exact hgoing _ h
    · obtain ⟨_, _, _, _, _, hstuck, _⟩ := (Config.grounds_of_step w o hgoing h).deadlock_inv hw
      exact Config.selectable_of_unstarted (Rehearsal.Sound.forest hs)
        (Config.Sound.quiet hs hloop) ht
        hopen hun hstuck

/-- The root spawns a task that joins the root, and joins it. -/
def Playbook.embraced : Playbook where
  responses
    | 0 => [.yielded (.effect (.fork .null [] [] true)),
        .yielded (.effect (.join (.single ⟨1, "", true⟩)))]
    | 1 => [.yielded (.effect (.join (.single ⟨0, "", true⟩)))]
    | _ => []
  plans := [{ CallPlan.real with invoke := false, output := .generator 1 }]

theorem deadlock_of_embraced :
    ∃ d s, (Playbook.embraced.played 30).control = .abort (.harness (.stopped d s .deadlock)) ∧
      d.ids = [0, 1] ∧ d.Circular := by
  have h : ∃ d s, (Playbook.embraced.played 30).control =
      .abort (.harness (.stopped d s .deadlock)) ∧ d.ids = [0, 1] := ⟨_, _, rfl, rfl⟩
  obtain ⟨d, s, hd, hids⟩ := h
  exact ⟨d, s, hd, hids, ((deadlock_is_circular_wait Playbook.world Playbook.world_candid .default
    Playbook.embraced "root" 0 30).1 d s hd).1⟩

end Rehearsal
