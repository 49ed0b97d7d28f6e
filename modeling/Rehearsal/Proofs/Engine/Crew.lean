import Rehearsal.Proofs.Engine.Errands
import Rehearsal.Proofs.Engine.Gathering
import Rehearsal.Proofs.Task.Order

/-!
# A crew that the root waits for

Functions are forked as a crew of tasks, and the root joins them. Whoever has not run stands in the
registry as it was made, and the crew runs batch by batch. A batch is who comes soonest among those
that are left, so the crew runs in the order in which its tasks are sorted; and what each has come
to is what the record says of its call.
-/
namespace Rehearsal

variable {σ : Type} {w : World σ} {o : RunOptions}

/-- A function that is forked, with its plan: it is called, at once or when its turn comes. -/
structure Worker where
  call : Call
  plan : CallPlan
  invoked : plan.invoke = true
  unfailing : plan.error = none
  untiered : ∀ tier, plan.wait ≠ .tier tier

/-- The task that a root makes of a worker. -/
def Worker.task (worker : Worker) (id : Nat) : Task :=
  Task.fresh id worker.call.name worker.plan.wait (some 0) false none
    (some (.planned worker.plan worker.call))

/-- The tasks of workers that a root forks one after the other. -/
def Worker.tasks (workers : List Worker) : List Task := (workers.zipIdx 1).map fun e => e.1.task e.2

/-- A function is called. -/
def Exchange.isInvocation : Exchange → Bool
  | .invoked .. => true
  | _ => false

/-- What is heard of the call of a task that comes to `v`. -/
def Task.heard (v : Value) (t : Task) : Option Exchange :=
  match t.entry with
  | some (.planned _ call) => some (.invoked call (.ok v))
  | _ => none

def Registry.left (r : Registry) (crew : List Task) :
    List Task := crew.filter fun t => !r.isDone t.id

theorem Worker.planned (worker : Worker) (id : Nat) :
    (worker.task id).Planned worker.plan worker.call := .fresh ..

theorem Registry.mem_left {r : Registry} {crew : List Task} {t : Task} :
    t ∈ r.left crew ↔ t ∈ crew ∧ r.isDone t.id = false := by
  rw [left, List.mem_filter, Bool.not_eq_true']

/-- Those of the crew that are not over stand in the registry as they were made, and besides the
root nobody else is pending. Those that `ran` are over, and their calls are on record in that order.
-/
structure Machine.Manned (workers : List Worker) (crew ran : List Task)
    (m : Machine (σ × List Exchange)) :
    Prop where
  workers : ∀ t ∈ crew, ∃ worker ∈ workers, t = worker.task t.id
  positive : ∀ t ∈ crew, 0 < t.id
  known : ∀ t ∈ crew, t.id < m.registry.size
  nodup : (crew.map (·.id)).Nodup
  pending : m.registry.pending = 0 :: (m.registry.left crew).map (·.id)
  unmade : ∀ t ∈ m.registry.left crew, m.registry.get? t.id = some t
  ended : ∀ t ∈ ran, t ∈ crew ∧ m.registry.isDone t.id = true
  heard : m.outer.2.filter Exchange.isInvocation = ran.filterMap fun t =>
    t.heard (m.registry.resultOf t.id)

namespace Machine.Manned

variable {workers : List Worker} {crew ran : List Task}
    {m m' : Machine (σ × List Exchange)} {t : Task}

/-- What happens to the root alone does not concern the crew. -/
theorem of_same (h : m.Manned workers crew ran) (m' : Machine (σ × List Exchange))
    (hpending : m'.registry.pending = m.registry.pending)
    (hsize : m'.registry.size = m.registry.size)
    (hget : ∀ i ≠ 0, m'.registry.get? i = m.registry.get? i)
    (hheard : m'.outer.2.filter Exchange.isInvocation = m.outer.2.filter Exchange.isInvocation) :
    m'.Manned workers crew ran ∧ m'.registry.left crew = m.registry.left crew := by
  have hdone : ∀ t ∈ crew, m'.registry.isDone t.id = m.registry.isDone t.id := fun t ht => by
    unfold Registry.isDone
    rw [hget t.id (Nat.ne_of_gt (h.positive t ht))]
  have hleft : m'.registry.left crew = m.registry.left crew :=
    List.filter_congr fun t ht => by rw [hdone t ht]
  refine ⟨⟨h.workers, h.positive, fun t ht => hsize ▸ h.known t ht, h.nodup, ?_, ?_, ?_, ?_⟩, hleft⟩
  · rw [hpending, hleft, h.pending]
  · intro t ht
    rw [hleft] at ht
    rw [hget t.id (Nat.ne_of_gt (h.positive t (Registry.mem_left.mp ht).1)), h.unmade t ht]
  · intro t ht
    obtain ⟨hmem, hd⟩ := h.ended t ht
    exact ⟨hmem, (hdone t hmem).trans hd⟩
  · rw [hheard, h.heard]
    refine List.filterMap_congr fun t ht => ?_
    simp only [Registry.resultOf, hget t.id (Nat.ne_of_gt (h.positive t (h.ended t ht).1))]

theorem mem_pending (h : m.Manned workers crew ran) (ht : t ∈ m.registry.left crew) :
    t.id ∈ m.registry.pending := by
  rw [h.pending]
  exact List.mem_cons_of_mem _ (List.mem_map_of_mem ht)

/-- A worker that is forked is the last of the crew. -/
theorem create (h : m.Manned workers crew ran) (m' : Machine (σ × List Exchange))
    (hroot : 0 < m.registry.size) {worker : Worker} (hworker : worker ∈ workers)
    (hreg : m'.registry = (m.registry.create worker.call.name worker.plan.wait (some 0) false none
      (some (.planned worker.plan worker.call))).1)
    (hheard : m'.outer.2.filter Exchange.isInvocation = m.outer.2.filter Exchange.isInvocation) :
    m'.Manned workers (crew ++ [worker.task m.registry.size]) ran ∧
      m'.registry.left (crew ++ [worker.task m.registry.size]) =
        m.registry.left crew ++ [worker.task m.registry.size] := by
  have hparent : ∀ p, some 0 = some p → p < m.registry.size := by
    rintro p ⟨⟩
    exact hroot
  have hnew : m'.registry.get? m.registry.size = some (worker.task m.registry.size) := by
    rw [hreg, Registry.get?_create hparent, if_pos rfl]
    rfl
  have hold : ∀ t ∈ crew, m'.registry.get? t.id = m.registry.get? t.id := by
    intro t ht
    have hpos := h.positive t ht
    rw [hreg, Registry.get?_create hparent, if_neg (Nat.ne_of_lt (h.known t ht)),
      if_neg (by simpa using Nat.ne_of_lt hpos)]
  have hdone : ∀ t ∈ crew, m'.registry.isDone t.id = m.registry.isDone t.id := fun t ht => by
    unfold Registry.isDone
    rw [hold t ht]
  have hleft : m'.registry.left (crew ++ [worker.task m.registry.size]) =
      m.registry.left crew ++ [worker.task m.registry.size] := by
    unfold Registry.left
    rw [List.filter_append]
    refine congrArg₂ (· ++ ·) (List.filter_congr fun t ht => by rw [hdone t ht]) ?_
    have hundone : m'.registry.isDone (worker.task m.registry.size).id = false :=
      Registry.isDone_of_eq_some hnew
    rw [List.filter_cons_of_pos (by simp [hundone])]
    rfl
  have hall : ∀ {P : Task → Prop}, (∀ t ∈ crew, P t) → P (worker.task m.registry.size) →
      ∀ t ∈ crew ++ [worker.task m.registry.size], P t := by
    intro P hcrew hlast t ht
    rcases List.mem_append.mp ht with ht | ht
    · exact hcrew t ht
    · exact List.mem_singleton.mp ht ▸ hlast
  refine ⟨⟨hall h.workers ⟨worker, hworker, rfl⟩, hall h.positive hroot, ?_, ?_, ?_, ?_, ?_, ?_⟩,
    hleft⟩
  · rw [hreg, Registry.size_create]
    exact hall (fun t ht => Nat.lt_succ_of_lt (h.known t ht)) (Nat.lt_succ_self _)
  · rw [List.map_append, List.nodup_append]
    refine ⟨h.nodup, List.nodup_singleton _, fun i hi j hj => ?_⟩
    obtain ⟨t, ht, rfl⟩ := List.mem_map.mp hi
    obtain rfl : j = m.registry.size := List.mem_singleton.mp hj
    exact Nat.ne_of_lt (h.known t ht)
  · rw [hleft, hreg, Registry.pending_create, h.pending, List.map_append]
    rfl
  · intro t ht
    rw [hleft] at ht
    rcases List.mem_append.mp ht with ht | ht
    · rw [hold t (Registry.mem_left.mp ht).1, h.unmade t ht]
    · rw [List.mem_singleton.mp ht]
      exact hnew
  · intro t ht
    obtain ⟨hmem, hd⟩ := h.ended t ht
    exact ⟨List.mem_append_left _ hmem, (hdone t hmem).trans hd⟩
  · rw [hheard, h.heard]
    refine List.filterMap_congr fun t ht => ?_
    simp only [Registry.resultOf, hold t (h.ended t ht).1]

/-- A worker that has run is over, and its call is the last one on record. -/
theorem close (h : m.Manned workers crew ran) (ht : t ∈ m.registry.left crew) {worker : Worker}
    (hworker : t = worker.task t.id) (v : Value) (s : σ) :
    Machine.Manned workers crew (ran ++ [t])
        { m with registry := m.registry.close t.id v, outer :=
          (s, m.outer.2 ++ [.invoked worker.call (.ok v)]) } ∧
      (m.registry.close t.id v).left crew =
        (m.registry.left crew).filter fun u => u.id != t.id := by
  obtain ⟨hmem, hundone⟩ := Registry.mem_left.mp ht
  have hget := h.unmade t ht
  have hself := Registry.get?_close_self hget v
  have hdone : ∀ i, (m.registry.close t.id v).isDone i = (i == t.id || m.registry.isDone i) := by
    intro i
    by_cases hi : i = t.id
    · subst hi
      rw [Registry.isDone_of_eq_some hself]
      simp [Task.closed, Task.finish]
    · simp [Registry.isDone, Registry.get?_close_ne hi, hi]
  have hleft : (m.registry.close t.id v).left crew =
      (m.registry.left crew).filter fun u => u.id != t.id := by
    unfold Registry.left
    rw [List.filter_filter]
    refine List.filter_congr fun u _ => ?_
    rw [hdone, Bool.not_or]
    rfl
  refine ⟨⟨h.workers, h.positive,
    fun u hu => by simpa using h.known u hu, h.nodup, ?_, ?_, ?_, ?_⟩, hleft⟩
  · have hne : (0 != t.id) = true := by simpa using Nat.ne_of_lt (h.positive t hmem)
    have hnodup : (0 :: (m.registry.left crew).map (·.id)).Nodup := by
      refine List.nodup_cons.mpr ⟨fun hz => ?_, (List.filter_sublist.map _).nodup h.nodup⟩
      obtain ⟨u, hu, hz⟩ := List.mem_map.mp hz
      exact Nat.ne_of_gt (h.positive u (Registry.mem_left.mp hu).1) hz
    show (m.registry.close t.id v).pending = _
    rw [Registry.pending_close (h.mem_pending ht), h.pending, hnodup.erase_eq_filter, hleft,
      List.filter_cons_of_pos (p := fun i => i != t.id) hne, List.filter_map]
    rfl
  · intro u hu
    have hu' : u ∈ m.registry.left crew ∧ (u.id != t.id) = true := List.mem_filter.mp (hleft ▸ hu)
    exact (Registry.get?_close_ne (by simpa using hu'.2) v).trans (h.unmade u hu'.1)
  · intro u hu
    show u ∈ crew ∧ (m.registry.close t.id v).isDone u.id = true
    rw [hdone]
    rcases List.mem_append.mp hu with hu | hu
    · obtain ⟨hu, hd⟩ := h.ended u hu
      exact ⟨hu, by rw [hd, Bool.or_true]⟩
    · obtain rfl := List.mem_singleton.mp hu
      exact ⟨hmem, by simp⟩
  · have hresult : (m.registry.close t.id v).resultOf t.id = v := by
      simp only [Registry.resultOf, hself]
      rfl
    have hlast : t.heard v = some (.invoked worker.call (.ok v)) := by
      rw [hworker]
      rfl
    show (m.outer.2 ++ [_]).filter _ = _
    rw [List.filter_append, h.heard, List.filterMap_append]
    refine congrArg₂ (· ++ ·) (List.filterMap_congr fun u hu => ?_) ?_
    · have hne : u.id ≠ t.id := fun he => by
        have hd := (h.ended u hu).2
        rw [he, hundone] at hd
        cases hd
      simp only [Registry.resultOf, Registry.get?_close_ne hne]
    · simp only [List.filterMap_cons, List.filterMap_nil, hresult, hlast]
      rfl

end Machine.Manned

/-! ### What the root waits for -/

def Pending.ofCrew (crew : List Task) : Pending := .list (crew.map fun t => .task t.id)

namespace Registry

variable {r : Registry} {crew : List Task}

theorem waitingOn_ofCrew (r : Registry) (crew : List Task) :
    (r.settleFinished (.ofCrew crew)).waitingOn = (r.left crew).map (·.id) := by
  show ((crew.map fun t => Pending.task t.id).map r.settleSlot).filterMap Pending.awaited? = _
  induction crew with
  | nil => rfl
  | cons t crew ih =>
    rw [List.map_cons, List.map_cons, left, List.filter_cons]
    cases hd : r.isDone t.id with
    | true =>
      rw [settleSlot_of_done hd]
      exact ih
    | false =>
      rw [settleSlot_of_not_done hd]
      exact congrArg (t.id :: ·) ih

theorem unwrap_ofCrew (h : r.left crew = []) :
    (r.settleFinished (.ofCrew crew)).unwrap = .list (crew.map fun t => r.resultOf t.id) := by
  show Value.list (((crew.map fun t => Pending.task t.id).map r.settleSlot).map Pending.slotValue) =
    _
  rw [List.map_map, List.map_map]
  refine congrArg Value.list (List.map_congr_left fun t ht => ?_)
  have hd : r.isDone t.id = true := by
    have hd := List.filter_eq_nil_iff.mp h t ht
    simpa using hd
  exact slotValue_settleSlot hd

theorem left_modify (r : Registry) (t : Nat) (f : Task → Task) (hd : ∀ u, (f u).done = u.done)
    (crew : List Task) : (r.modify t f).left crew = r.left crew :=
  List.filter_congr fun u _ => by rw [r.isDone_modify t u.id f hd]

theorem settleFinished_modify (r : Registry) (t : Nat) (f : Task → Task)
    (hd : ∀ u, (f u).done = u.done)
    (hr : ∀ u, (f u).result = u.result) (p : Pending) :
    (r.modify t f).settleFinished p = r.settleFinished p := by
  refine congrArg (Pending.mapSlots · p) (funext fun slot => ?_)
  cases slot with
  | task d =>
    by_cases hdt : d = t
    · simp only [settleSlot, get?_modify, if_pos hdt]
      cases r.get? d with
      | none => rfl
      | some u => simp only [Option.map_some, hd, hr]
    · simp only [settleSlot, get?_modify_ne hdt]
  | _ => rfl

end Registry

/-- The root has joined the crew, and waits for the tasks `deps` of it. -/
structure Task.Joins (g : Nat) (r : Registry) (crew : List Task) (deps : List Nat) (u : Task) :
    Prop where
  undone : u.done = false
  idle : u.running = false
  coroutine : u.coroutine = some ⟨[g], true⟩
  wait : u.wait = .tier .generator
  interruption : ∃ p, u.interruption = some ⟨.join, p, deps, none⟩ ∧
    r.settleFinished p = r.settleFinished (.ofCrew crew)

/-- Reaping does not concern it. -/
theorem Task.Joins.reaped {g : Nat} {r : Registry} {crew : List Task} {deps : List Nat} {u : Task}
    (h : u.Joins g r crew deps) : u.Joins g { r with finished := [] } crew deps :=
  ⟨h.undone, h.idle, h.coroutine, h.wait, h.interruption⟩

theorem Task.Joins.keeps {g : Nat} {r r' : Registry} {crew : List Task} {deps : List Nat} {u : Task}
    (h : u.Joins g r crew deps) (hk : r.Keeps r') : u.Joins g r' crew deps := by
  obtain ⟨p, hi, hp⟩ := h.interruption
  exact ⟨h.undone, h.idle, h.coroutine, h.wait, p,
    hi, by rw [← hk.settleFinished p, hp, hk.settleFinished]⟩

/-- Whichever of the workers is called comes to a value that is no generator, while `P` holds of the
world. -/
def World.Makes (w : World σ) (workers : List Worker) (P : σ → Prop) : Prop :=
  ∀ worker ∈ workers, ∀ view s, P s → ∃ v s', w.invoke view worker.call s = (.ok v, s') ∧
    (∀ g, v ≠ .generator g) ∧ P s'

namespace Config

variable {workers : List Worker} {crew ran : List Task}
    {m : Machine (σ × List Exchange)} {P : σ → Prop}
  {below : List Frame} {g : Nat}

theorem makes_worker (makes : w.Makes workers P) {worker : Worker} (hworker : worker ∈ workers)
    (m : Machine (σ × List Exchange)) (hP : P m.outer.1) :
    ∃ v s, m.Makes w.recorded worker.plan worker.call v
      (s, m.outer.2 ++ [.invoked worker.call (.ok v)]) ∧
      P s := by
  obtain ⟨v, s, hinvoke, plain, hs⟩ := makes worker hworker m.view m.outer.1 hP
  refine ⟨v, s, ⟨?_, plain⟩, hs⟩
  unfold Machine.produce
  simp only [worker.unfailing, worker.invoked, if_true, World.recorded, hinvoke]

/-! ### Batches -/

/-- A batch of the crew runs in its order. -/
theorem leads_batch_of_crew (makes : w.Makes workers P) (below : List Frame) {batch : List Task} :
    ∀ {ran : List Task} {m : Machine (σ × List Exchange)}, m.Manned workers crew ran → P m.outer.1 →
      (∀ t ∈ batch, t ∈ m.registry.left crew) → (batch.map (·.id)).Nodup →
      ∃ m', Leads w.recorded o ⟨m, .batch (batch.map (·.id)) :: below, .done⟩ (batch.map (·.id))
          ⟨m', .batch [] :: below, .done⟩ ∧
        m'.Manned workers crew (ran ++ batch) ∧ P m'.outer.1 ∧
        m'.registry.left crew =
          (m.registry.left crew).filter (fun u => !(batch.map (·.id)).contains u.id) ∧
        m'.registry.finished = m.registry.finished ++ batch.map (·.id) ∧
        m'.steps = m.steps ∧ m'.registry.get? 0 = m.registry.get? 0 ∧
        m.registry.Keeps m'.registry := by
  induction batch with
  | nil =>
    intro ran m manned hP _ _
    refine ⟨m, .refl _, by simpa using manned, hP, ?_, by simp, rfl, rfl, .refl _⟩
    exact (List.filter_eq_self.mpr fun u _ => rfl).symm
  | cons t batch ih =>
    intro ran m manned hP hleft hnodup
    have ht := hleft t (List.mem_cons_self ..)
    obtain ⟨hmem, hundone⟩ := Registry.mem_left.mp ht
    obtain ⟨worker, hworker, he⟩ := manned.workers t hmem
    obtain ⟨v, s, hmakes, hs⟩ :=
      makes_worker makes hworker
        (({ m with handled := none } : Machine _).modify t.id fun task =>
          { task with entry := none }) hP
    obtain ⟨manned', hleft'⟩ :=
      (manned.of_same { m with handled := none } rfl rfl (fun _ _ => rfl) rfl).1.close
      ht he v s
    have hother : ∀ u ∈ batch, u.id ≠ t.id := fun u hu he =>
      (List.nodup_cons.mp hnodup).1 (List.mem_map.mpr ⟨u, hu, he⟩)
    obtain ⟨m', hleads, hmanned, hP', hl, hfin, hsteps, hroot, hkeeps⟩ :=
        ih manned' hs (fun u hu => by
      show u ∈ (m.registry.close t.id v).left crew
      rw [hleft', List.mem_filter]
      exact ⟨hleft u (List.mem_cons_of_mem _ hu),
        by simpa using hother u hu⟩) (List.nodup_cons.mp hnodup).2
    have hplanned : t.Planned worker.plan worker.call := he ▸ worker.planned t.id
    refine ⟨m', (leads_batch_cons (manned.unmade t ht) hplanned hmakes).trans hleads, ?_,
      hP', ?_, ?_, hsteps, ?_,
      (Registry.keeps_close hundone v).trans hkeeps⟩
    · rw [List.append_assoc] at hmanned
      exact hmanned
    · rw [hl]
      show ((m.registry.close t.id v).left crew).filter _ = _
      rw [hleft', List.filter_filter]
      refine List.filter_congr fun u _ => ?_
      simp only [List.map_cons, List.contains_cons, Bool.not_or, bne]
      exact Bool.and_comm ..
    · rw [hfin]
      show (m.registry.close t.id v).finished ++ _ = _
      rw [Registry.finished_close (manned.mem_pending ht), List.append_assoc]
      rfl
    · exact hroot.trans (Registry.get?_close_ne (Nat.ne_of_lt (manned.positive t hmem)) v)

/-! ### Rounds -/

/-- Calls that have not been made are passed over. -/
theorem leads_round_planned {ids : List Nat} {rest : List Task}
    (hget : ∀ t ∈ rest, m.registry.get? t.id = some t)
    (hplanned : ∀ t ∈ rest, ∃ plan call, t.Planned plan call) :
    Leads w.recorded o ⟨m, .round ids (rest.map (·.id)) :: below, .done⟩ []
      ⟨m, .round ids [] :: below, .done⟩ := by
  induction rest with
  | nil => exact .refl _
  | cons t rest ih =>
    obtain ⟨plan, call, h⟩ := hplanned t (List.mem_cons_self ..)
    refine .head rfl rfl (step_round_planned (hget t (List.mem_cons_self ..)) h) (ih ?_ ?_)
    · exact fun u hu => hget u (List.mem_cons_of_mem _ hu)
    · exact fun u hu => hplanned u (List.mem_cons_of_mem _ hu)

/-- What the round tells the root while it waits: who is left, and who has come to what. -/
theorem settle_joins {u : Task} {deps : List Nat} {i : Interruption} {r : Registry} (ids : List Nat)
    (hjoins : u.Joins g r crew deps) (hi : u.interruption = some i)
    (htold : deps.any ids.contains = true ∨ deps = (r.left crew).map (·.id))
    (hleft : r.left crew ≠ []) :
    ∃ p, r.settle 0 i ids = .ok (false, ⟨.join, p, (r.left crew).map (·.id), none⟩, r) ∧
      r.settleFinished p = r.settleFinished (.ofCrew crew) := by
  obtain ⟨p, hi', hp⟩ := hjoins.interruption
  obtain rfl := Option.some.inj (hi.symm.trans hi')
  have hne : ((r.settleFinished p).waitingOn).isEmpty = false := by
    rw [hp, Registry.waitingOn_ofCrew]
    simpa using hleft
  rw [Registry.settle_gathering (Or.inl rfl)]
  dsimp only
  by_cases hany : deps.any ids.contains = true
  · refine ⟨r.settleFinished p, ?_, ?_⟩
    · rw [if_pos hany, if_neg (by simp [hne]), hp, Registry.waitingOn_ofCrew]
    · rw [(Registry.Keeps.refl r).settleFinished, hp]
  · obtain rfl := htold.resolve_left hany
    exact ⟨p, if_neg hany, hp⟩

/-- While somebody of the crew is left, a round leaves the root waiting. -/
theorem leads_round_root {u : Task} {deps ids : List Nat} (rest : List Nat) (below : List Frame)
    (hu : m.registry.get? 0 = some u) (hjoins : u.Joins g m.registry crew deps)
    (htold : deps.any ids.contains = true ∨ deps = (m.registry.left crew).map (·.id))
    (hleft : m.registry.left crew ≠ []) :
    ∃ m' u', Leads w.recorded o ⟨m, .round ids (0 :: rest) :: below, .done⟩ []
        ⟨m', .round ids rest :: below, .done⟩ ∧
      m'.registry.get? 0 = some u' ∧
      u'.Joins g m'.registry crew ((m.registry.left crew).map (·.id)) ∧
      m'.registry.pending = m.registry.pending ∧ m'.registry.finished = m.registry.finished ∧
      m'.registry.size = m.registry.size ∧ (∀ i ≠ 0, m'.registry.get? i = m.registry.get? i) ∧
      m'.outer = m.outer ∧ m'.steps = m.steps := by
  obtain ⟨q, hi, _⟩ := hjoins.interruption
  have hsame : ∀ p, (m.registry.modify 0 fun task => task.removeChildren ids).settleFinished p =
      m.registry.settleFinished p :=
        m.registry.settleFinished_modify 0 _ (fun _ => rfl) (fun _ => rfl)
  have hjoins' : u.Joins g (m.registry.modify 0 fun task => task.removeChildren ids) crew deps := by
    refine ⟨hjoins.undone, hjoins.idle, hjoins.coroutine, hjoins.wait, ?_⟩
    obtain ⟨p, hp, hsettles⟩ := hjoins.interruption
    exact ⟨p, hp, by rw [hsame, hsame, hsettles]⟩
  have hleft' : (m.registry.modify 0 fun task => task.removeChildren ids).left crew =
      m.registry.left crew :=
    m.registry.left_modify 0 (·.removeChildren ids) (fun _ => rfl) crew
  obtain ⟨p, hsettle, hp⟩ := settle_joins ids hjoins' hi (hleft' ▸ htold) (hleft' ▸ hleft)
  rw [hleft'] at hsettle
  rw [hsame, hsame] at hp
  have hstep :=
    step_round_unsettled (w := w.recorded) (o := o) rest below hu hjoins.undone hi rfl hsettle
  have hsame' : ∀ q, ((m.registry.modify 0 fun task => task.removeChildren ids).modify 0 fun task =>
      task.awaiting ⟨.join, p, (m.registry.left crew).map (·.id), none⟩).settleFinished q =
        m.registry.settleFinished q := fun q =>
    (Registry.settleFinished_modify _ 0 (·.awaiting _) (fun _ => rfl) (fun _ => rfl) q).trans
      (hsame q)
  refine ⟨_, (u.removeChildren ids).awaiting ⟨.join, p, (m.registry.left crew).map (·.id), none⟩,
    .one rfl rfl hstep, ?_, ⟨hjoins.undone, hjoins.idle, hjoins.coroutine, hjoins.wait, p, rfl, ?_⟩,
    rfl, rfl, ?_,
    ?_, rfl, rfl⟩
  · exact Registry.get?_modify_of_eq_some (fun task => task.awaiting _)
      (Registry.get?_modify_of_eq_some _ hu)
  · exact (hsame' p).trans (hp.trans (hsame' _).symm)
  · exact (Registry.size_modify ..).trans (Registry.size_modify ..)
  · intro i hne
    exact (Registry.get?_modify_ne hne).trans (Registry.get?_modify_ne hne)

/-- When nobody is left, the round sends the root what the crew has come to. -/
theorem leads_round_answered {u : Task} {deps ids : List Nat} (rest : List Nat) (below : List Frame)
    (hu : m.registry.get? 0 = some u) (hjoins : u.Joins g m.registry crew deps)
    (htold : deps.any ids.contains = true) (hleft : m.registry.left crew = []) :
    ∃ m', Leads w.recorded o ⟨m, .round ids (0 :: rest) :: below, .done⟩ []
        ⟨m', .round ids rest :: below,
          .drive 0 (.send (.list (crew.map fun t => m.registry.resultOf t.id)))⟩ ∧
      m'.registry.size = m.registry.size ∧ (∀ i ≠ 0, m'.registry.get? i = m.registry.get? i) ∧
      m'.outer = m.outer ∧ m'.steps = m.steps := by
  obtain ⟨p, hi, hp⟩ := hjoins.interruption
  have hsame : ∀ p, (m.registry.modify 0 fun task => task.removeChildren ids).settleFinished p =
      m.registry.settleFinished p :=
        m.registry.settleFinished_modify 0 _ (fun _ => rfl) (fun _ => rfl)
  generalize hanswer : Value.list (crew.map fun t => m.registry.resultOf t.id) = answer
  have hsettle : ∃ i', i'.answer = some (.value answer) ∧ i'.kind = .join ∧
      (m.registry.modify 0 fun task => task.removeChildren ids).settle 0
        ⟨.join, p, deps, none⟩ ids =
        .ok (true, i', m.registry.modify 0 fun task => task.removeChildren ids) := by
    have hnil : ((m.registry.settleFinished p).waitingOn).isEmpty = true := by
      rw [hp, Registry.waitingOn_ofCrew, hleft]
      rfl
    rw [Registry.settle_gathering (Or.inl rfl)]
    dsimp only
    rw [hsame, if_pos htold, if_pos hnil]
    refine ⟨_, ?_, ?_, rfl⟩
    · show some (Pending.value _) = _
      rw [hp, Registry.unwrap_ofCrew hleft, hanswer]
    · rfl
  obtain ⟨i', hans, hkind, hsettle⟩ := hsettle
  have hleads :=
    leads_round_settled (w := w.recorded) (o := o) rest below hu hjoins.undone hjoins.idle
    (by rw [hjoins.wait]; rfl) hi rfl hsettle ⟨_, Registry.get?_modify_of_eq_some _ hu, rfl⟩
      hans (by simp [hkind])
  simp only [hjoins.coroutine, Option.isNone_some, Bool.false_eq_true, if_false,
    Registry.modify_modify] at hleads
  exact ⟨_, hleads, Registry.size_modify .., fun i hne => Registry.get?_modify_ne hne, rfl, rfl⟩

/-! ### The main loop -/

/-- The root has joined a crew of which those that `ran` have run, and which is to run in the order
in which it is sorted. -/
structure Joined (g : Nat) (workers : List Worker) (crew ran : List Task)
    (P : σ → Prop) (deps : List Nat)
    (m : Machine (σ × List Exchange)) : Prop where
  manned : m.Manned workers crew ran
  holds : P m.outer.1
  root : ∃ u, m.registry.get? 0 = some u ∧ u.Joins g m.registry crew deps
  late : ∀ t ∈ m.registry.left crew, t.wait.isNow = false
  order : sortByPriority crew = ran ++ sortByPriority (m.registry.left crew)

/-- The root is sent what the crew has come to, and the crew has run in the order in which it is
sorted. -/
structure Delivers (crew : List Task) (P : σ → Prop) (c : Config (σ × List Exchange)) : Prop where
  resumed : c.resumption? 0 =
    some (.send (.list (crew.map fun t => c.machine.registry.resultOf t.id)))
  holds : P c.machine.outer.1
  heard : c.machine.outer.2.filter Exchange.isInvocation =
    (sortByPriority crew).filterMap fun t => t.heard (c.machine.registry.resultOf t.id)

theorem Joined.planned {deps : List Nat} (h : Joined g workers crew ran P deps m) {t : Task}
    (ht : t ∈ m.registry.left crew) : ∃ plan call, t.Planned plan call := by
  obtain ⟨worker, _, he⟩ := h.manned.workers t (Registry.mem_left.mp ht).1
  refine ⟨worker.plan, worker.call, ?_⟩
  rw [he]
  exact worker.planned t.id

/-- What happens to the root alone, as long as it waits, does not concern the crew. -/
theorem Joined.of_same {deps deps' : List Nat} (h : Joined g workers crew ran P deps m)
    (m' : Machine (σ × List Exchange)) (hpending : m'.registry.pending = m.registry.pending)
    (hsize : m'.registry.size = m.registry.size)
    (hget : ∀ i ≠ 0, m'.registry.get? i = m.registry.get? i)
    (houter : m'.outer = m.outer)
    (hroot : ∃ u, m'.registry.get? 0 = some u ∧ u.Joins g m'.registry crew deps') :
    Joined g workers crew ran P deps' m' ∧ m'.registry.left crew = m.registry.left crew := by
  obtain ⟨manned, hleft⟩ := h.manned.of_same m' hpending hsize hget (houter ▸ rfl)
  refine ⟨⟨manned, houter ▸ h.holds, hroot, ?_, ?_⟩, hleft⟩
  · exact hleft ▸ h.late
  · exact hleft ▸ h.order

/-- While somebody is left, the end of a batch leads to the main loop. -/
theorem Joined.leads_loop {deps : List Nat} (h : Joined g workers crew ran P deps m)
    (htold : deps.any m.registry.finished.contains = true ∨
      deps = (m.registry.left crew).map (·.id))
    (hleft : m.registry.left crew ≠ []) (within : m.steps ≤ o.stepLimit) :
    ∃ m', Leads w.recorded o ⟨m, [.batch [], .loop 0], .done⟩ [] ⟨m', [.loop 0], .done⟩ ∧
      Joined g workers crew ran P ((m.registry.left crew).map (·.id)) m' ∧
      m'.registry.left crew = m.registry.left crew ∧ m'.registry.finished = [] ∧
      m'.steps = m.steps := by
  by_cases hnone : m.registry.finished = []
  · have hdeps : deps = (m.registry.left crew).map (·.id) := htold.resolve_left (by simp [hnone])
    exact ⟨m, leads_reaped_nil (Or.inl rfl) hnone, hdeps ▸ h, rfl, hnone, rfl⟩
  · obtain ⟨m₁, hreg, hsteps₁, houter₁, hleads₁⟩ :=
      leads_reaped (w := w.recorded) (o := o) (Or.inl rfl) hnone (Nat.not_lt.mpr within)
    obtain ⟨u, hu, hjoins⟩ := h.root
    have hjoins₁ : u.Joins g m₁.registry crew deps := hreg ▸ hjoins.reaped
    obtain ⟨joined₁, hleft₁⟩ :=
      h.of_same m₁ (hreg ▸ rfl) (hreg ▸ rfl) (fun i _ => hreg ▸ rfl) houter₁
      ⟨u, hreg ▸ hu, hjoins₁⟩
    obtain ⟨m₂, u₂, hleads₂, hu₂, hjoins₂, hpending₂, hfinished₂, hsize₂,
        hget₂, houter₂, hsteps₂⟩ :=
      leads_round_root (w := w) (o := o) ((m₁.registry.left crew).map (·.id)) [.loop 0]
        (hreg ▸ hu) hjoins₁ (hleft₁ ▸ htold) (hleft₁ ▸ hleft)
    obtain ⟨joined₂, hleft₂⟩ := joined₁.of_same m₂ hpending₂ hsize₂ hget₂ houter₂ ⟨u₂, hu₂, hjoins₂⟩
    have hround :
        Leads w.recorded o ⟨m₂, .round m.registry.finished ((m₁.registry.left crew).map (·.id)) ::
        [.loop 0], .done⟩ [] ⟨m₂, .round m.registry.finished [] :: [.loop 0], .done⟩ := by
      rw [← hleft₂]
      exact leads_round_planned joined₂.manned.unmade fun t ht => joined₂.planned ht
    have hfinished : m₂.registry.finished = [] := by rw [hfinished₂, hreg]
    have hpending : m.registry.pending = 0 :: (m₁.registry.left crew).map (·.id) := by
      rw [h.manned.pending, hleft₁]
    refine ⟨m₂, ?_, hleft₁ ▸ joined₂, hleft₂.trans hleft₁, hfinished, hsteps₂.trans hsteps₁⟩
    rw [hpending] at hleads₁
    exact hleads₁.trans
      (hleads₂.trans (hround.trans (leads_reaped_nil (Or.inr ⟨_, rfl⟩) hfinished)))

/-- When nobody is left, the end of a batch leads to the root. -/
theorem Joined.leads_root {deps : List Nat} (h : Joined g workers crew ran P deps m)
    (htold : deps.any m.registry.finished.contains = true) (hleft : m.registry.left crew = [])
    (within : m.steps ≤ o.stepLimit) :
    ∃ c, Leads w.recorded o ⟨m, [.batch [], .loop 0], .done⟩ [] c ∧ c.Delivers crew P ∧
      c.machine.steps = m.steps := by
  have hsome : m.registry.finished ≠ [] := by
    intro hnone
    simp [hnone] at htold
  obtain ⟨m₁, hreg, hsteps₁, houter₁, hleads₁⟩ :=
    leads_reaped (w := w.recorded) (o := o) (Or.inl rfl) hsome (Nat.not_lt.mpr within)
  obtain ⟨u, hu, hjoins⟩ := h.root
  have hjoins₁ : u.Joins g m₁.registry crew deps := hreg ▸ hjoins.reaped
  obtain ⟨joined₁, hleft₁⟩ := h.of_same m₁ (hreg ▸ rfl) (hreg ▸ rfl) (fun i _ => hreg ▸ rfl) houter₁
    ⟨u, hreg ▸ hu, hjoins₁⟩
  obtain ⟨m₂, hleads₂, hsize₂, hget₂, houter₂, hsteps₂⟩ :=
    leads_round_answered (w := w) (o := o) [] [.loop 0] (hreg ▸ hu) hjoins₁ htold
      (hleft₁.trans hleft)
  have hresult : ∀ t ∈ crew, m₂.registry.resultOf t.id = m₁.registry.resultOf t.id := fun t ht => by
    simp only [Registry.resultOf, hget₂ t.id (Nat.ne_of_gt (h.manned.positive t ht))]
  have hran : sortByPriority crew = ran := by
    rw [h.order, hleft, sortByPriority_nil, List.append_nil]
  have hpending : m.registry.pending = [0] := by
    rw [h.manned.pending, hleft]
    rfl
  rw [hpending] at hleads₁
  refine ⟨_, hleads₁.trans hleads₂, ⟨?_, ?_, ?_⟩, hsteps₂.trans hsteps₁⟩
  · simp only [resumption?, if_true]
    exact congrArg (fun vs => some (Signal.send (.list vs)))
      (List.map_congr_left fun t ht => (hresult t ht).symm)
  · exact houter₂ ▸ joined₁.holds
  · show m₂.outer.2.filter _ = _
    rw [houter₂, joined₁.manned.heard, hran]
    exact List.filterMap_congr fun t ht => by rw [hresult t (h.manned.ended t ht).1]

/-- The next batch is who comes soonest of those that are left. -/
theorem Joined.batch_eq {deps : List Nat} (h : Joined g workers crew ran P deps m)
    (hleft : m.registry.left crew ≠ []) :
    selectReadyBatch m.registry.pendingTasks =
        (m.registry.left crew).filter (·.soonestOf (m.registry.left crew)) ∧
      selectReadyBatch m.registry.pendingTasks ≠ [] := by
  obtain ⟨u, hu, hjoins⟩ := h.root
  obtain ⟨p, hi, _⟩ := hjoins.interruption
  have hselectable : ∀ t ∈ m.registry.left crew, t.isSelectable = true := fun t ht => by
    obtain ⟨plan, call, hplanned⟩ := h.planned ht
    exact hplanned.isSelectable
  have hpending : m.registry.pendingTasks = u :: m.registry.left crew := by
    have hget : (m.registry.left crew).filterMap (m.registry.get? ∘ fun t => t.id) =
        m.registry.left crew :=
      (List.filterMap_congr h.manned.unmade).trans List.filterMap_some
    unfold Registry.pendingTasks Registry.select
    rw [h.manned.pending, List.filterMap_cons, hu, List.filterMap_map, hget]
  have heligible : m.registry.pendingTasks.filter (·.isSelectable) = m.registry.left crew := by
    rw [hpending, List.filter_cons_of_neg
      (by simp [Task.isSelectable, Task.isBlocked, hi, Interruption.resolved])]
    exact List.filter_eq_self.mpr hselectable
  constructor
  · rw [selectReadyBatch_eq, heligible]
    rw [heligible]
    exact h.late
  · obtain ⟨t, rest, hcons⟩ := List.exists_cons_of_ne_nil hleft
    have ht : t ∈ m.registry.left crew := hcons ▸ List.mem_cons_self ..
    exact selectReadyBatch_ne_nil (hpending ▸ List.mem_cons_of_mem _ ht) (hselectable t ht)

theorem Joined.nodup_left {deps : List Nat} (h : Joined g workers crew ran P deps m) :
    ((m.registry.left crew).map (·.id)).Nodup := (List.filter_sublist.map _).nodup h.manned.nodup

/-- Those of a batch are no longer left after it. -/
theorem filter_not_mem_batch {left : List Task}
    (hnodup : (left.map (·.id)).Nodup) (p : Task → Bool) :
    left.filter (fun t => !((left.filter p).map (·.id)).contains t.id) =
      left.filter fun t => !p t := by
  refine List.filter_congr fun t ht => congrArg not ?_
  rw [Bool.eq_iff_iff, List.contains_iff_mem]
  constructor
  · intro hmem
    obtain ⟨s, hs, he⟩ := List.mem_map.mp hmem
    obtain ⟨hs, hp⟩ := List.mem_filter.mp hs
    exact List.inj_on_of_nodup_map hnodup hs ht he ▸ hp
  · exact fun hp => List.mem_map_of_mem (List.mem_filter.mpr ⟨ht, hp⟩)

/-- The main loop has the next batch run. -/
theorem Joined.leads_batch (makes : w.Makes workers P)
    (h : Joined g workers crew ran P ((m.registry.left crew).map (·.id)) m)
    (hnone : m.registry.finished = [])
    (hleft : m.registry.left crew ≠ []) (hsteps : m.steps < o.stepLimit) :
    ∃ m' batch, Leads w.recorded o ⟨m, [.loop 0], .done⟩ (batch.map (·.id))
      ⟨m', [.batch [], .loop 0], .done⟩ ∧
      Joined g workers crew (ran ++ batch) P ((m.registry.left crew).map (·.id)) m' ∧
      sortByPriority (m.registry.left crew) = batch ++ sortByPriority (m'.registry.left crew) ∧
      ((m.registry.left crew).map (·.id)).any m'.registry.finished.contains = true ∧
      (m'.registry.left crew).length < (m.registry.left crew).length ∧ m'.steps = m.steps + 1 := by
  obtain ⟨hbatch, hbatch_ne⟩ := h.batch_eq hleft
  obtain ⟨u, hu, hjoins⟩ := h.root
  have hundone : m.registry.isDone 0 = false := (Registry.isDone_of_eq_some hu).trans hjoins.undone
  obtain ⟨m₁, hreg₁, hsteps₁, houter₁, hleads₁⟩ :=
    leads_looking (w := w.recorded) hundone hsteps hbatch_ne
  rw [hbatch] at hleads₁ hbatch_ne
  obtain ⟨joined₁, hleft₁⟩ :=
    h.of_same m₁ (hreg₁ ▸ rfl) (hreg₁ ▸ rfl) (fun i _ => hreg₁ ▸ rfl) houter₁
    ⟨u, hreg₁ ▸ hu, hreg₁ ▸ hjoins⟩
  have hsub : ((m.registry.left crew).filter (·.soonestOf (m.registry.left crew))).Sublist
      (m.registry.left crew) :=
    List.filter_sublist
  obtain ⟨m₂, hleads₂, manned₂, hP₂, hleft₂, hfinished₂, hsteps₂, hroot₂, hkeeps₂⟩ :=
    leads_batch_of_crew (o := o) makes [.loop 0] joined₁.manned joined₁.holds
      (fun t ht => by rw [hleft₁]; exact hsub.subset ht) ((hsub.map _).nodup h.nodup_left)
  rw [hleft₁, filter_not_mem_batch h.nodup_left] at hleft₂
  rw [hreg₁, hnone, List.nil_append] at hfinished₂
  have hsplit := sortByPriority_eq_soonest_append (m.registry.left crew)
  rw [← hleft₂] at hsplit
  obtain ⟨t, batch, hcons⟩ := List.exists_cons_of_ne_nil hbatch_ne
  refine ⟨m₂, _, hleads₁.trans hleads₂, ⟨manned₂, hP₂, ⟨u, ?_, ?_⟩, ?_, ?_⟩, hsplit, ?_, ?_, ?_⟩
  · rw [hroot₂, hreg₁, hu]
  · exact Task.Joins.keeps (hreg₁ ▸ hjoins) hkeeps₂
  · intro t ht
    rw [hleft₂] at ht
    exact h.late t (List.mem_filter.mp ht).1
  · rw [h.order, hsplit, List.append_assoc]
  · refine List.any_eq_true.mpr
      ⟨t.id, List.mem_map_of_mem (hsub.subset (hcons ▸ List.mem_cons_self ..)), ?_⟩
    rw [hfinished₂, hcons]
    simp
  · have hperm := congrArg List.length hsplit
    rw [List.length_append, (perm_sortByPriority _).length_eq,
      (perm_sortByPriority _).length_eq, hcons,
      List.length_cons] at hperm
    omega
  · rw [hsteps₂, hsteps₁]

/-- **The crew runs in the order in which it is sorted**, and then the root is sent what it has come
to. -/
theorem Joined.leads_delivery (makes : w.Makes workers P) {n : Nat} :
    ∀ {ran : List Task} {m : Machine (σ × List Exchange)}, (m.registry.left crew).length = n →
      Joined g workers crew ran P ((m.registry.left crew).map (·.id)) m → m.registry.finished = [] →
      m.registry.left crew ≠ [] → m.steps + n ≤ o.stepLimit →
      ∃ c, Leads w.recorded o ⟨m, [.loop 0], .done⟩
        ((sortByPriority (m.registry.left crew)).map (·.id)) c ∧
        c.Delivers crew P ∧ c.machine.steps ≤ m.steps + n := by
  induction n using Nat.strongRecOn with
  | ind n ih =>
    intro ran m hn joined hnone hleft hsteps
    have hpos : 0 < n := hn ▸ List.length_pos_iff.mpr hleft
    obtain ⟨m₁, batch, hleads₁, joined₁, hsplit, htold, hless, hsteps₁⟩ :=
      joined.leads_batch makes hnone hleft (by omega : m.steps < o.stepLimit)
    rw [hsplit, List.map_append]
    by_cases hleft₁ : m₁.registry.left crew = []
    · obtain ⟨c, hleads, hdelivers, hc⟩ :=
        joined₁.leads_root (w := w) (o := o) htold hleft₁ (by omega)
      have hsorted : (sortByPriority (m₁.registry.left crew)).map (·.id) = [] := by simp [hleft₁]
      rw [hsorted]
      exact ⟨c, hleads₁.trans hleads, hdelivers, by omega⟩
    · obtain ⟨m₂, hleads₂, joined₂, hleft₂, hnone₂, hsteps₂⟩ :=
        joined₁.leads_loop (w := w) (o := o) (Or.inl htold) hleft₁ (by omega)
      obtain ⟨c, hleads, hdelivers, hc⟩ :=
        ih (m₁.registry.left crew).length (hn ▸ hless) (hleft₂ ▸ rfl)
        (hleft₂ ▸ joined₂) hnone₂ (hleft₂ ▸ hleft₁) (by omega)
      rw [hleft₂] at hleads
      exact ⟨c, hleads₁.trans (hleads₂.trans hleads), hdelivers, by omega⟩

end Config

end Rehearsal
