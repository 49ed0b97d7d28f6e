import Mathlib.Order.MinMax
import Rehearsal.Proofs.Task.Order
import Rehearsal.Proofs.Task.Reports

/-!
# Retiming

Ticks are priorities, and only their order counts. `Registry.retime` puts `f n` for every tick `n`;
where `f` is strictly increasing the same tasks are picked for the next batch, and all else that is
read off a registry but the wait states themselves is the same for any `f`, as long as no tick has
too many digits to be written.
-/
namespace Rehearsal

def retimeTick (f : Nat → Nat) : Int → Int
  | .ofNat n => f n
  | .negSucc n => .negSucc n

def Wait.retime (f : Nat → Nat) : Wait → Wait
  | .tick n => .tick (retimeTick f n)
  | wait => wait

def Task.retime (f : Nat → Nat) (t : Task) : Task := { t with wait := t.wait.retime f }

namespace Registry

def retime (f : Nat → Nat) (r : Registry) : Registry := { r with tasks := r.tasks.map (·.retime f) }

def retimeFrom (f : Nat → Nat) (first : Nat) (r : Registry) : Registry :=
  { r with tasks := r.tasks.mapIdx fun i t => if first ≤ i then t.retime f else t }

end Registry

/-- The tick of the task can be written, as it is and retimed. -/
def Task.Brief (f : Nat → Nat) (t : Task) : Prop :=
  t.wait.hasLong = false ∧ (t.wait.retime f).hasLong = false

instance (f : Nat → Nat) (t : Task) : Decidable (t.Brief f) := instDecidableAnd

def Registry.Brief (f : Nat → Nat) (r : Registry) : Prop :=
  ∀ t ∈ r.tasks.toList, t.Brief f

instance (f : Nat → Nat) (r : Registry) : Decidable (r.Brief f) := List.decidableBAll _ _

/-- Two reports on the same tasks in the same order, waiting on the same tasks, the second with
their waits retimed. They show what is known of the same structures. -/
structure TaskDump.Retimed (f : Nat → Nat) (d d' : TaskDump) : Prop where
  header : d'.header = d.header
  entries :
    d'.entries.map (fun e => (e.id, e.name, e.wait, e.dependencies, e.partialValue.isSome)) =
      d.entries.map
        fun e => (e.id, e.name, e.wait.retime f, e.dependencies, e.partialValue.isSome)

/-! ### The order of ticks -/

variable {f : Nat → Nat}

theorem retimeTick_lt (hf : StrictMono f) {a b : Int} (h : a < b) :
    retimeTick f a < retimeTick f b := by
  cases a with
  | ofNat a =>
    cases b with
    | ofNat b => exact Int.ofNat_lt.mpr (hf (Int.ofNat_lt.mp h))
    | negSucc b =>
      exact absurd h (Int.not_lt.mpr (Int.le_trans (Int.le_of_lt (Int.negSucc_lt_zero b))
        (Int.natCast_nonneg a)))
  | negSucc a =>
    cases b with
    | ofNat b => exact Int.lt_of_lt_of_le (Int.negSucc_lt_zero a) (Int.natCast_nonneg (f b))
    | negSucc b => exact h

theorem retimeTick_le_iff (hf : StrictMono f) {a b : Int} :
    retimeTick f a ≤ retimeTick f b ↔ a ≤ b := by
  constructor
  · intro h
    by_contra hlt
    exact Int.not_lt.mpr h (retimeTick_lt hf (Int.not_le.mp hlt))
  · intro h
    rcases Int.lt_or_eq_of_le h with h | rfl
    · exact Int.le_of_lt (retimeTick_lt hf h)
    · exact Int.le_refl _

theorem retimeTick_min (hf : StrictMono f) (a b : Int) :
    retimeTick f (min a b) = min (retimeTick f a) (retimeTick f b) := by
  rw [Int.min_def, Int.min_def]
  by_cases h : a ≤ b
  · rw [if_pos h, if_pos ((retimeTick_le_iff hf).mpr h)]
  · rw [if_neg h, if_neg (mt (retimeTick_le_iff hf).mp h)]

namespace Wait

theorem retime_eq_tier_iff {wait : Wait} {tier : WaitTier} :
    wait.retime f = .tier tier ↔ wait = .tier tier := by
  cases wait <;> simp [retime]

theorem retime_eq_last_iff {wait : Wait} : wait.retime f = .last ↔ wait = .last := by
  cases wait <;> simp [retime]

@[simp] theorem isNow_retime (wait : Wait) : (wait.retime f).isNow = wait.isNow := by
  cases wait <;> rfl

end Wait

theorem Task.Brief.hasLong_retime {t : Task} (h : t.Brief f) :
    (t.retime f).wait.hasLong = t.wait.hasLong :=
  h.2.trans h.1.symm

theorem any_retime {tasks : List Task} {p q : Task → Bool}
    (h : ∀ t ∈ tasks, q (t.retime f) = p t) : (tasks.map (·.retime f)).any q = tasks.any p := by
  rw [List.any_map, Bool.eq_iff_iff, List.any_eq_true, List.any_eq_true]
  exact exists_congr fun t => and_congr_right fun ht => by rw [Function.comp_apply, h t ht]

theorem leastTick?_retime (hf : StrictMono f) (tasks : List Task) :
    leastTick? (tasks.map (·.retime f)) = (leastTick? tasks).map (retimeTick f) := by
  have htick : tick? ∘ (·.retime f) = fun t : Task => (tick? t).map (retimeTick f) := by
    funext t
    show tick? (t.retime f) = _
    unfold tick? Task.retime
    cases t.wait <;> rfl
  have hmin : ∀ ns : List Int, (ns.map (retimeTick f)).min? = ns.min?.map (retimeTick f) := by
    intro ns
    cases ns with
    | nil => rfl
    | cons n ns =>
      rw [List.map_cons, List.min?_cons', List.min?_cons', List.foldl_map]
      exact congrArg some (List.foldl_hom (retimeTick f) fun a b => (retimeTick_min hf a b).symm)
  rw [leastTick?, leastTick?, List.filterMap_map, ← hmin, List.map_filterMap, htick]

theorem inBatch_retime (hf : StrictMono f) (cutoff : Option Int) (t : Task) :
    inBatch (cutoff.map (retimeTick f)) (t.retime f) = inBatch cutoff t := by
  unfold inBatch Task.retime
  cases t.wait with
  | tick n =>
    cases cutoff with
    | none => rfl
    | some c => exact decide_eq_decide.mpr (retimeTick_le_iff hf)
  | _ => rfl

/-- **The next batch is the same.** -/
theorem selectReadyBatch_retime (hf : StrictMono f) (tasks : List Task) :
    selectReadyBatch (tasks.map (·.retime f)) = (selectReadyBatch tasks).map (·.retime f) := by
  have heligible : (tasks.map (·.retime f)).filter (·.isSelectable) =
      (tasks.filter (·.isSelectable)).map (·.retime f) := List.filter_map
  have hlast : (fun t : Task => decide (t.wait = .last)) ∘ (·.retime f) =
      fun t : Task => decide (t.wait = .last) :=
    funext fun _ => decide_eq_decide.mpr Wait.retime_eq_last_iff
  unfold selectReadyBatch
  dsimp only
  rw [heligible, leastTick?_retime hf]
  generalize tasks.filter (·.isSelectable) = eligible
  have hbatch : inBatch ((leastTick? eligible).map (retimeTick f)) ∘ (·.retime f) =
      inBatch (leastTick? eligible) :=
    funext fun t => inBatch_retime hf _ t
  rw [List.filter_map, hbatch, List.filter_map, hlast, List.isEmpty_map]
  split <;> rfl

namespace Registry

variable (r : Registry)

/-! ### What is looked up -/

@[simp] theorem size_retime : (r.retime f).size = r.size := Array.size_map ..

@[simp] theorem get?_retime (i : Nat) : (r.retime f).get? i = (r.get? i).map (·.retime f) :=
  Array.getElem?_map ..

theorem select_retime (ids : List Nat) :
    (r.retime f).select ids = (r.select ids).map (·.retime f) := by
  rw [select, select, List.map_filterMap, show (r.retime f).get? = _ from funext (get?_retime r)]

@[simp] theorem pendingTasks_retime : (r.retime f).pendingTasks = r.pendingTasks.map (·.retime f) :=
  select_retime r r.pending

@[simp] theorem isDone_retime (i : Nat) : (r.retime f).isDone i = r.isDone i := by
  unfold isDone
  rw [get?_retime]
  cases r.get? i <;> rfl

theorem coroutineOwner_go_retime (i current : Nat) :
    coroutineOwner.go (r.retime f) i current = coroutineOwner.go r i current := by
  induction current using Nat.strongRecOn with
  | ind current ih =>
    rw [coroutineOwner.go, coroutineOwner.go, get?_retime]
    cases r.get? current with
    | none => rfl
    | some t =>
      dsimp only [Option.map_some, Task.retime]
      split
      · rfl
      · split
        · rfl
        · split
          · rename_i hlt
            exact ih _ hlt
          · rfl

@[simp] theorem coroutineOwner_retime (i : Nat) :
    (r.retime f).coroutineOwner i = r.coroutineOwner i :=
  coroutineOwner_go_retime r i i

@[simp] theorem settleFinished_retime (p : Pending) :
    (r.retime f).settleFinished p = r.settleFinished p := by
  have hslot : (r.retime f).settleSlot = r.settleSlot := by
    funext slot
    cases slot with
    | task i =>
      dsimp only [settleSlot]
      rw [get?_retime]
      cases r.get? i <;> rfl
    | _ => rfl
  rw [settleFinished, settleFinished, hslot]

/-! ### What is changed -/

/-- What reads no wait state and leaves it, or puts another for it, may be done before or after. -/
theorem modify_retime (i : Nat) {g : Task → Task}
    (hg : ∀ t : Task, g (t.retime f) = (g t).retime f) :
    (r.retime f).modify i g = (r.modify i g).retime f := by
  have htasks : (r.tasks.map (·.retime f)).modify i g = (r.tasks.modify i g).map (·.retime f) := by
    refine Array.ext_getElem? fun j => ?_
    rw [Array.getElem?_modify, Array.getElem?_map, Array.getElem?_map, Array.getElem?_modify]
    split
    · rw [Option.map_map, Option.map_map]
      exact congrArg (Option.map · _) (funext hg)
    · rfl
  unfold modify retime
  rw [htasks]

theorem addChild_retime (t : Task) (child : Nat) :
    (t.retime f).addChild child = (t.addChild child).retime f := by
  unfold Task.addChild
  rw [show (t.retime f).children = t.children from rfl]
  split <;> rfl

/-- A task retimed is a task made with another wait state. -/
theorem create_retime (name : String) (wait : Wait) (parent : Option Nat) (detached : Bool)
    (coroutine : Option Coroutine) (entry : Option Entry) :
    ((r.retime f).create name (wait.retime f) parent detached coroutine entry).1 =
      (r.create name wait parent detached coroutine entry).1.retime f := by
  have hpush : ({ r.retime f with
      tasks := (r.retime f).tasks.push
        (Task.fresh (r.retime f).size name (wait.retime f) parent detached coroutine entry)
      pending := (r.retime f).pending ++ [(r.retime f).size] } : Registry) =
      ({ r with
        tasks := r.tasks.push (Task.fresh r.size name wait parent detached coroutine entry)
        pending := r.pending ++ [r.size] } : Registry).retime f := by
    rw [size_retime]
    unfold retime
    dsimp only
    rw [Array.map_push]
    rfl
  unfold create
  dsimp only
  rw [hpush, size_retime]
  cases parent with
  | none => rfl
  | some p => exact modify_retime _ p fun t => addChild_retime t r.size

theorem retire_retime (i : Nat) : (r.retime f).retire i = (r.retire i).retime f := by
  unfold retire
  rw [show (r.retime f).pending = r.pending from rfl]
  split <;> rfl

@[simp] theorem subtree_retime (i : Nat) : (r.retime f).subtree i = r.subtree i := by
  have hto : ∀ depth i, (r.retime f).subtreeTo depth i = r.subtreeTo depth i := by
    intro depth
    induction depth with
    | zero => exact fun _ => rfl
    | succ depth ih =>
      intro i
      rw [subtreeTo, subtreeTo, get?_retime]
      cases r.get? i with
      | none => rfl
      | some t => exact congrArg (fun below => i :: t.children.flatMap below) (funext ih)
  rw [subtree, subtree, size_retime, hto]

theorem cancelTree_retime (i : Nat) : (r.retime f).cancelTree i = (r.cancelTree i).retime f := by
  rw [cancelTree, cancelTree, subtree_retime]
  exact List.foldl_hom (Registry.retime f) fun r i => modify_retime r i fun _ => rfl

theorem cancelAll_retime (ids : List Nat) :
    (r.retime f).cancelAll ids = (r.cancelAll ids).retime f :=
  List.foldl_hom (Registry.retime f) fun r i => cancelTree_retime r i

theorem letGo_retime (i : Nat) : (r.retime f).letGo i = (r.letGo i).retime f := by
  rw [letGo, cancelTree_retime]
  exact modify_retime _ i fun _ => rfl

/-! ### Retiming the latest tasks -/

theorem retimeFrom_of_le {first : Nat} (h : r.size ≤ first) : r.retimeFrom f first = r := by
  have htasks : (r.tasks.mapIdx fun i t => if first ≤ i then t.retime f else t) = r.tasks := by
    refine Array.ext_getElem? fun i => ?_
    rw [Array.getElem?_mapIdx]
    cases hi : r.tasks[i]? with
    | none => rfl
    | some t =>
      have hlt : i < r.size := get?_eq_some_lt hi
      rw [Option.map_some, if_neg (by omega)]
  unfold retimeFrom
  rw [htasks]

theorem modify_retimeFrom (first i : Nat) {g : Task → Task}
    (hg : ∀ t : Task, g (t.retime f) = (g t).retime f) :
    (r.modify i g).retimeFrom f first = (r.retimeFrom f first).modify i g := by
  have htasks : ((r.tasks.modify i g).mapIdx fun j t => if first ≤ j then t.retime f else t) =
      (r.tasks.mapIdx fun j t => if first ≤ j then t.retime f else t).modify i g := by
    refine Array.ext_getElem? fun j => ?_
    rw [Array.getElem?_modify, Array.getElem?_mapIdx, Array.getElem?_mapIdx, Array.getElem?_modify]
    by_cases hij : i = j
    · rw [if_pos hij, if_pos hij, Option.map_map, Option.map_map]
      refine congrArg (Option.map · _) (funext fun t => ?_)
      dsimp only [Function.comp_apply]
      split
      · exact (hg t).symm
      · rfl
    · rw [if_neg hij, if_neg hij]
  unfold modify retimeFrom
  rw [htasks]

/-- **To retime a task just made is to make it with its wait state retimed.** -/
theorem create_retimeFrom (name : String) (wait : Wait) (parent : Option Nat) (detached : Bool)
    (coroutine : Option Coroutine) (entry : Option Entry) :
    (r.create name wait parent detached coroutine entry).1.retimeFrom f r.size =
      (r.create name (wait.retime f) parent detached coroutine entry).1 := by
  have hpush :
      ∀ pending, (⟨r.tasks.push (Task.fresh r.size name wait parent detached coroutine entry),
      pending, r.finished⟩ : Registry).retimeFrom f r.size =
      ⟨r.tasks.push (Task.fresh r.size name (wait.retime f) parent detached coroutine entry),
        pending, r.finished⟩ := by
    intro pending
    have hold : (r.tasks.mapIdx fun i t => if r.size ≤ i then t.retime f else t) = r.tasks :=
      congrArg Registry.tasks (retimeFrom_of_le r (Nat.le_refl r.size))
    unfold retimeFrom
    dsimp only
    rw [Array.mapIdx_push, hold, if_pos (show r.size ≤ r.tasks.size from Nat.le_refl _)]
    rfl
  unfold create
  dsimp only
  cases parent with
  | none => exact hpush _
  | some p =>
    dsimp only
    rw [modify_retimeFrom _ _ p fun t => addChild_retime t r.size, hpush]

/-! ### Reports -/

theorem dependencies_retime (t : Task) (pending : List Task) :
    (t.retime f).dependencies (pending.map (·.retime f)) = t.dependencies pending := by
  unfold Task.dependencies
  rw [List.filter_map, List.map_map]
  simp only [Task.retime, Wait.retime_eq_tier_iff]
  rfl

mutual

/-- Whether all of a structure is known does not depend on the waits that its text shows. -/
theorem renderPending_retime (level : Nat) : (p : Pending) →
    ((r.retime f).renderPending level p).1 = (r.renderPending level p).1
  | .task _ | .completed _ | .returned _ | .failed _ | .value _ => rfl
  | .list ps | .tuple ps => by
    have hitems := congrArg (List.all · id) (renderItems_retime level ps)
    simp only [List.all_map, Function.id_comp] at hitems
    show (if level > 1 then _ else _ : Bool × String).1 =
      (if level > 1 then _ else _ : Bool × String).1
    by_cases hdeep : level > 1
    · rw [if_pos hdeep, if_pos hdeep]
    · rw [if_neg hdeep, if_neg hdeep]
      exact hitems
  | .keyed frozen es => by
    have hentries := congrArg (List.all · id) (renderEntries_retime level es)
    simp only [List.all_map, Function.id_comp] at hentries
    show (if level > 1 then _ else _ : Bool × String).1 =
      (if level > 1 then _ else _ : Bool × String).1
    by_cases hdeep : level > 1
    · rw [if_pos hdeep, if_pos hdeep]
    · rw [if_neg hdeep, if_neg hdeep]
      exact hentries

theorem renderItems_retime (level : Nat) : (ps : List Pending) →
    ((r.retime f).renderItems level ps).map (·.1) = (r.renderItems level ps).map (·.1)
  | [] => rfl
  | p :: ps => by
    simp only [renderItems, List.map_cons, renderPending_retime (level + 1) p,
      renderItems_retime level ps]

theorem renderEntries_retime (level : Nat) : (es : List (Value × Pending)) →
    ((r.retime f).renderEntries level es).map (·.1) = (r.renderEntries level es).map (·.1)
  | [] => rfl
  | e :: es => by
    simp only [renderEntries, List.map_cons, renderPending_retime (level + 1) e.2,
      renderEntries_retime level es]

end

theorem partialValue?_retime (t : Task) :
    ((r.retime f).partialValue? (t.retime f)).isSome = (r.partialValue? t).isSome := by
  have hshown : ∀ p, (if ((r.retime f).renderPending 0 p).1 then none
      else some ((r.retime f).renderPending 0 p).2).isSome =
      (if (r.renderPending 0 p).1 then none else some (r.renderPending 0 p).2).isSome := by
    intro p
    rw [apply_ite Option.isSome, apply_ite Option.isSome, renderPending_retime]
    simp only [Option.isSome_none, Option.isSome_some]
  unfold partialValue?
  rw [show (t.retime f).interruption = t.interruption from rfl]
  split
  · rename_i p _ _
    cases p with
    | list ps => exact hshown (.list ps)
    | tuple ps => exact hshown (.tuple ps)
    | keyed frozen es => exact hshown (.keyed frozen es)
    | _ => rfl
  · rfl

variable {r}

theorem Brief.of_get? (h : r.Brief f) {id : Nat} {t : Task} (ht : r.get? id = some t) :
    t.Brief f :=
  h t (Array.mem_toList_iff.mpr (Array.mem_of_getElem? ht))

theorem Brief.of_mem_select (h : r.Brief f) {ids : List Nat} {t : Task} (ht : t ∈ r.select ids) :
    t.Brief f := by
  obtain ⟨id, _, hid⟩ := List.mem_filterMap.mp ht
  exact h.of_get? hid

theorem Brief.of_mem_pendingTasks (h : r.Brief f) {t : Task} (ht : t ∈ r.pendingTasks) :
    t.Brief f :=
  h.of_mem_select ht

theorem Brief.of_mem_selectReadyBatch (h : r.Brief f) {t : Task}
    (ht : t ∈ selectReadyBatch r.pendingTasks) : t.Brief f :=
  h.of_mem_pendingTasks ((selectReadyBatch_sublist _).subset ht)

theorem Brief.hasLongTick_retime (h : r.Brief f) (id : Nat) :
    (r.retime f).hasLongTick id = r.hasLongTick id := by
  unfold hasLongTick
  rw [get?_retime]
  cases hid : r.get? id with
  | none => rfl
  | some t => exact (h.of_get? hid).hasLong_retime

theorem Brief.awaitsLong_retime (h : r.Brief f) (t : Task) :
    (r.retime f).awaitsLong (t.retime f) = r.awaitsLong t :=
  awaitsLong_congr h.hasLongTick_retime rfl

theorem Brief.waitsLong_retime (h : r.Brief f) : (r.retime f).waitsLong = r.waitsLong := by
  rw [waitsLong, waitsLong, pendingTasks_retime]
  exact any_retime fun t _ => h.awaitsLong_retime t

/-- **Nothing else in a report depends on the wait states**, nor whether it is written. -/
theorem Brief.dump_retime (h : r.Brief f) (header : String) :
    (∃ d d', r.dump header = .ok d ∧ (r.retime f).dump header = .ok d' ∧ d.Retimed f d') ∨
      ∃ refusal, r.dump header = .error refusal ∧ (r.retime f).dump header = .error refusal := by
  unfold dump
  rw [h.waitsLong_retime]
  cases r.waitsLong with
  | true => exact .inr ⟨_, rfl, rfl⟩
  | false =>
    refine .inl ⟨_, _, rfl, rfl, rfl, ?_⟩
    rw [pendingTasks_retime, List.map_map, List.map_map, List.map_map]
    refine List.map_congr_left fun t _ => ?_
    dsimp only [Function.comp_apply, dumpEntry]
    rw [dependencies_retime, partialValue?_retime]
    rfl

section Lines

variable {tasks : List Task} (brief : ∀ t ∈ tasks, t.Brief f)
include brief

/-- Whether a line for each task is written does not depend on the wait states. -/
theorem Brief.renderTasks_retime (h : r.Brief f) :
    (∃ text text', r.renderTasks tasks = .ok text ∧
      (r.retime f).renderTasks (tasks.map (·.retime f)) = .ok text') ∨
      ∃ refusal, r.renderTasks tasks = .error refusal ∧
        (r.retime f).renderTasks (tasks.map (·.retime f)) = .error refusal := by
  have hlong : (tasks.map (·.retime f)).any (r.retime f).endsLong = tasks.any r.endsLong := by
    refine any_retime fun t ht => ?_
    unfold endsLong
    rw [(brief t ht).hasLong_retime]
    simp only [showsLong_congr h.hasLongTick_retime]
    rfl
  unfold renderTasks
  rw [hlong]
  cases tasks.any r.endsLong with
  | true => exact .inr ⟨_, rfl, rfl⟩
  | false => exact .inl ⟨_, _, rfl, rfl⟩

theorem renderTaskTree_retime : ∃ tree tree', renderTaskTree tasks = .ok tree ∧
    renderTaskTree (tasks.map (·.retime f)) = .ok tree' := by
  have hlong : tasks.any (·.wait.hasLong) = false :=
    List.any_eq_false.mpr fun t ht => by simp [(brief t ht).1]
  have hlong' : (tasks.map (·.retime f)).any (·.wait.hasLong) = false :=
    (any_retime fun t ht => (brief t ht).hasLong_retime).trans hlong
  unfold renderTaskTree
  rw [hlong, hlong']
  exact ⟨_, _, rfl, rfl⟩

theorem Brief.renderPendingTasks_retime (h : r.Brief f) :
    (∃ text text', r.renderPendingTasks tasks = .ok text ∧
      (r.retime f).renderPendingTasks (tasks.map (·.retime f)) = .ok text') ∨
      ∃ refusal, r.renderPendingTasks tasks = .error refusal ∧
        (r.retime f).renderPendingTasks (tasks.map (·.retime f)) = .error refusal := by
  have hlong : (tasks.map (·.retime f)).any
      (fun t => t.wait.hasLong || (r.retime f).awaitsLong t) =
      tasks.any fun t => t.wait.hasLong || r.awaitsLong t :=
    any_retime fun t ht => by rw [(brief t ht).hasLong_retime, h.awaitsLong_retime]
  unfold renderPendingTasks
  rw [hlong]
  cases tasks.any fun t => t.wait.hasLong || r.awaitsLong t with
  | true => exact .inr ⟨_, rfl, rfl⟩
  | false => exact .inl ⟨_, _, rfl, rfl⟩

end Lines

end Registry

end Rehearsal
