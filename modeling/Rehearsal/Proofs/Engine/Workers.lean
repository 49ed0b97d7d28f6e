import Rehearsal.Proofs.Engine.Crew

/-!
# Forked workers run by priority

A saga forks functions one after the other and joins them all. Those that need not wait run when
they are forked, the others batch by batch; together that is the order in which sorting by priority
puts their tasks.
-/
namespace Rehearsal

variable {σ : Type} {w : World σ} {o : RunOptions} {g : Nat}
    {workers : List Worker} {worker : Worker}
  {stands : Nat → σ → Prop}

/-- The effect that forks a worker. -/
def Worker.effect (worker : Worker) : Value :=
  .effect (.fork worker.call.fn worker.call.args worker.call.kwargs false)

/-- What a saga is sent once it has forked the first `k` workers: the marker of the last of them. -/
def Worker.receipt (workers : List Worker) : Nat → Value
  | 0 => .null
  | k + 1 => match workers[k]? with
    | some worker => .marker (worker.task (k + 1)).marker
    | none => .null

/-- The generator `g` is that of a saga that forks the workers, joins the list of their markers, and
has done so far what `stands` says of the world: it has forked `k` workers, and with one more than
there are, joined them. The workers come to values, and do not meddle with it. -/
structure World.Forks (w : World σ) (g : Nat) (workers : List Worker) (stands : Nat → σ → Prop) :
    Prop where
  forks : ∀ {k worker}, workers[k]? = some worker → ∀ view s, stands k s →
    ∃ s', w.resume view g (.send (Worker.receipt workers k)) s = (.yielded worker.effect, s') ∧
      ∀ view, ∃ s'', w.plan view worker.call true s' = (.ok worker.plan, s'') ∧ stands (k + 1) s''
  joins : ∀ view s, stands workers.length s →
    ∃ s', w.resume view g (.send (Worker.receipt workers workers.length)) s =
      (.yielded (.effect (.join (.listed false ((Worker.tasks workers).map Task.marker)))), s') ∧
      stands (workers.length + 1) s'
  makes : ∀ k, w.Makes workers (stands k)

/-- The task need not wait. -/
def Task.prompt (t : Task) : Bool := decide (t.wait = .now)

namespace Worker

theorem tasks_take_succ {k : Nat} (h : workers[k]? = some worker) :
    tasks (workers.take (k + 1)) = tasks (workers.take k) ++ [worker.task (k + 1)] := by
  obtain ⟨hlt, _⟩ := List.getElem?_eq_some_iff.mp h
  unfold tasks
  rw [List.take_add_one, h, List.zipIdx_append, List.map_append, List.length_take,
    Nat.min_eq_left hlt.le,
    Nat.add_comm 1 k]
  rfl

theorem receipt_succ {k : Nat} (h : workers[k]? = some worker) :
    receipt workers (k + 1) = .marker (worker.task (k + 1)).marker := by
  simp only [receipt, h]

theorem eq_task_of_mem_tasks {t : Task} (h : t ∈ tasks workers) :
    ∃ worker ∈ workers, t = worker.task t.id := by
  obtain ⟨⟨worker, k⟩, hmem, rfl⟩ := List.mem_map.mp h
  exact ⟨worker, (List.mem_zipIdx hmem).2.2 ▸ List.getElem_mem _, rfl⟩

/-- What has to wait has a wait that is not over. -/
theorem isNow_eq_false {t : Task} (h : t ∈ tasks workers) (hlate : t.prompt = false) :
    t.wait.isNow = false := by
  obtain ⟨worker, _, he⟩ := eq_task_of_mem_tasks h
  have hwait : t.wait = worker.plan.wait := he ▸ rfl
  have hnot : t.wait ≠ .now := by simpa [Task.prompt] using hlate
  rw [hwait] at hnot ⊢
  exact Wait.isNow_eq_false hnot worker.untiered

/-- Whoever need not wait comes first. -/
theorem sort_tasks (workers : List Worker) : sortByPriority (tasks workers) =
    (tasks workers).filter (·.prompt) ++ sortByPriority
      ((tasks workers).filter fun t => !t.prompt) := by
  have hnow : ∀ t : Task, t.prompt = true → t.wait = .now :=
    fun t ht => by simpa [Task.prompt] using ht
  refine sortByPriority_eq_append (fun a _ ha b _ => ?_) fun a ha hlate b _ hb => ?_
  · rw [hnow a ha]
    cases b.wait <;> simp [Wait.le, Wait.key]
  · have hwait := isNow_eq_false ha hlate
    rw [hnow b hb]
    cases hw : a.wait with
    | now => rw [hw] at hwait; cases hwait
    | tier _ => rw [hw] at hwait; cases hwait
    | tick _ => simp [Wait.le, Wait.key]
    | last => simp [Wait.le, Wait.key]

end Worker

/-- The root, whose generator is `g`, has forked the first `k` workers, and those that need not wait
have run. -/
structure Machine.Forked (g : Nat) (started : Bool) (workers : List Worker) (k : Nat)
    (m : Machine (σ × List Exchange)) : Prop where
  manned : m.Manned workers (Worker.tasks (workers.take k))
    ((Worker.tasks (workers.take k)).filter (·.prompt))
  left : m.registry.left (Worker.tasks (workers.take k)) =
    (Worker.tasks (workers.take k)).filter fun t => !t.prompt
  root : ∃ u, m.registry.get? 0 = some u ∧ u.coroutine = some ⟨[g], started⟩ ∧ u.done = false
  size : m.registry.size = k + 1
  finished : m.registry.finished = ((Worker.tasks (workers.take k)).filter (·.prompt)).map (·.id)

theorem Machine.Forked.of_same {started started' : Bool} {k : Nat}
    {m m' : Machine (σ × List Exchange)}
    (h : m.Forked g started workers k) (hpending : m'.registry.pending = m.registry.pending)
    (hfinished : m'.registry.finished = m.registry.finished)
    (hsize : m'.registry.size = m.registry.size)
    (hget : ∀ i ≠ 0, m'.registry.get? i = m.registry.get? i)
    (hheard : m'.outer.2.filter Exchange.isInvocation = m.outer.2.filter Exchange.isInvocation)
    (hroot : ∃ u, m'.registry.get? 0 = some u ∧
      u.coroutine = some ⟨[g], started'⟩ ∧ u.done = false) :
    m'.Forked g started' workers k := by
  obtain ⟨manned, hleft⟩ := h.manned.of_same m' hpending hsize hget hheard
  exact ⟨manned, hleft.trans h.left, hroot, hsize.trans h.size, hfinished.trans h.finished⟩

/-- The next worker has its task, the last of the crew, and has not run. -/
structure Machine.Hired (g : Nat) (workers : List Worker) (worker : Worker) (k : Nat)
    (m : Machine (σ × List Exchange)) : Prop where
  next : workers[k]? = some worker
  manned : m.Manned workers (Worker.tasks (workers.take (k + 1)))
    ((Worker.tasks (workers.take k)).filter (·.prompt))
  left : m.registry.left (Worker.tasks (workers.take (k + 1))) =
    (Worker.tasks (workers.take k)).filter (fun t => !t.prompt) ++ [worker.task (k + 1)]
  root : ∃ u, m.registry.get? 0 = some u ∧ u.coroutine = some ⟨[g], true⟩ ∧ u.done = false
  size : m.registry.size = k + 2
  finished : m.registry.finished = ((Worker.tasks (workers.take k)).filter (·.prompt)).map (·.id)

theorem Machine.Forked.create {k : Nat} {m : Machine (σ × List Exchange)}
    (h : m.Forked g true workers k)
    (m' : Machine (σ × List Exchange)) (hworker : workers[k]? = some worker)
    (hreg : m'.registry = (m.registry.create worker.call.name worker.plan.wait (some 0) false none
      (some (.planned worker.plan worker.call))).1)
    (hheard : m'.outer.2.filter Exchange.isInvocation = m.outer.2.filter Exchange.isInvocation) :
    m'.Hired g workers worker k := by
  have hpos : 0 < m.registry.size := by
    rw [h.size]
    omega
  obtain ⟨manned, hleft⟩ := h.manned.create m' hpos (List.mem_of_getElem? hworker) hreg hheard
  rw [h.size, ← Worker.tasks_take_succ hworker] at manned hleft
  rw [h.left] at hleft
  refine ⟨hworker, manned, hleft, ?_, ?_, ?_⟩
  · obtain ⟨u, hu, hco, hundone⟩ := h.root
    refine ⟨u.addChild m.registry.size, ?_, ?_⟩
    · rw [hreg, Registry.get?_create (by rintro p ⟨⟩; exact hpos),
        if_neg (Nat.ne_of_lt hpos), if_pos rfl, hu]
      rfl
    · unfold Task.addChild
      split <;> exact ⟨hco, hundone⟩
  · rw [hreg, Registry.size_create, h.size]
  · rw [hreg, Registry.finished_create, h.finished]

namespace Machine.Hired

variable {k : Nat} {m : Machine (σ × List Exchange)}

theorem mem_left (h : m.Hired g workers worker k) :
    worker.task (k + 1) ∈ m.registry.left (Worker.tasks (workers.take (k + 1))) := by
  rw [h.left]
  exact List.mem_append_right _ (List.mem_cons_self ..)

/-- A worker that has to wait is left for later. -/
theorem late (h : m.Hired g workers worker k) (hlate : (worker.task (k + 1)).prompt = false) :
    m.Forked g true workers (k + 1) := by
  have hran : (Worker.tasks (workers.take (k + 1))).filter (·.prompt) =
      (Worker.tasks (workers.take k)).filter (·.prompt) := by
    simp [Worker.tasks_take_succ h.next, hlate]
  refine ⟨hran ▸ h.manned, ?_, h.root, h.size, hran ▸ h.finished⟩
  rw [h.left]
  simp [Worker.tasks_take_succ h.next, hlate]

/-- A worker that need not wait runs. -/
theorem prompt (h : m.Hired g workers worker k)
    (hprompt : (worker.task (k + 1)).prompt = true) (v : Value)
    (s : σ) :
    Machine.Forked g true workers (k + 1)
      { m with
        registry := m.registry.close (k + 1) v
        outer := (s, m.outer.2 ++ [.invoked worker.call (.ok v)]) } := by
  obtain ⟨manned, hleft⟩ := h.manned.close h.mem_left rfl v s
  have hran : (Worker.tasks (workers.take (k + 1))).filter (·.prompt) =
      (Worker.tasks (workers.take k)).filter (·.prompt) ++ [worker.task (k + 1)] := by
    simp [Worker.tasks_take_succ h.next, hprompt]
  refine ⟨hran ▸ manned, hleft.trans ?_, ?_, (Registry.size_close ..).trans h.size, ?_⟩
  · have hothers : ∀ t ∈ Worker.tasks (workers.take k), t.id ≠ k + 1 := fun t ht he => by
      have hnodup := h.manned.nodup
      rw [Worker.tasks_take_succ h.next, List.map_append, List.nodup_append] at hnodup
      exact hnodup.2.2 _ (List.mem_map_of_mem ht) _ (List.mem_singleton_self _) he
    have hsame : ((Worker.tasks (workers.take k)).filter fun t => !t.prompt).filter
        (fun t => t.id != k + 1) =
        (Worker.tasks (workers.take k)).filter fun t => !t.prompt :=
      List.filter_eq_self.mpr fun t ht => by simpa using hothers t (List.mem_filter.mp ht).1
    have hself : [worker.task (k + 1)].filter (fun t => t.id != k + 1) = [] := by
      simp [Worker.task, Task.fresh]
    rw [h.left, List.filter_append, show (worker.task (k + 1)).id = k + 1 from rfl, hsame,
      hself, List.append_nil]
    simp [Worker.tasks_take_succ h.next, hprompt]
  · obtain ⟨u, hu, hroot⟩ := h.root
    exact ⟨u, (Registry.get?_close_ne (Nat.succ_ne_zero k).symm v).trans hu, hroot⟩
  · refine (Registry.finished_close (h.manned.mem_pending h.mem_left) v).trans ?_
    rw [h.finished, hran, List.map_append]
    rfl

end Machine.Hired

/-- A task with a coroutine answers for itself. -/
theorem Registry.coroutineOwner_eq {r : Registry} {t : Nat} {u : Task} (hu : r.get? t = some u)
    (hco : u.coroutine.isSome = true) : r.coroutineOwner t = t := by
  unfold Registry.coroutineOwner
  rw [Registry.coroutineOwner.go]
  simp only [hu, hco, if_true]

/-- A fork makes the task of the next worker, which is started at once if it need not wait. -/
theorem Machine.Forked.interpretFork {k : Nat} {m : Machine (σ × List Exchange)}
    (h : m.Forked g true workers k)
    (hworker : workers[k]? = some worker) {s : σ}
    (hplan : w.plan m.view worker.call true m.outer.1 = (.ok worker.plan, s)) :
    ∃ m' : Machine (σ × List Exchange), m'.Hired g workers worker k ∧
    m'.outer.1 = s ∧ m'.steps = m.steps ∧
      m.interpretEffect w.recorded 0
        (.fork worker.call.fn worker.call.args worker.call.kwargs false) false =
        if worker.plan.wait = .now then ⟨m', [.forked (k + 1)], .start (k + 1)⟩
        else ⟨m', [], .answer (.advance (.marker (worker.task (k + 1)).marker))⟩ := by
  obtain ⟨u, hu, hco, hundone⟩ := h.root
  have howner : m.registry.coroutineOwner 0 = 0 := Registry.coroutineOwner_eq hu (by rw [hco]; rfl)
  have hplan' : w.recorded.plan m.view worker.call true m.outer =
      (.ok worker.plan, s, m.outer.2 ++ [.planned worker.call true (.ok worker.plan)]) := by
    simp only [World.recorded, hplan]
  generalize hm' : ({ m with
    registry := (m.registry.create worker.call.name worker.plan.wait (some 0) false none
      (some (.planned worker.plan worker.call))).1
    outer := (s, m.outer.2 ++ [.planned worker.call true (.ok worker.plan)]) } :
    Machine (σ × List Exchange)) = m'
  refine ⟨m', h.create m' hworker (by rw [← hm']) ?_, by rw [← hm'], by rw [← hm'], ?_⟩
  · rw [← hm']
    exact (List.filter_append ..).trans (List.append_nil _)
  · show m.interpretFork w.recorded 0 worker.call false = _
    unfold Machine.interpretFork
    simp only [hplan', Machine.create_eq, howner, Bool.false_eq_true, if_false, h.size, hm']
    rfl

namespace Config

variable {k : Nat} {m m' : Machine (σ × List Exchange)} {c : Config (σ × List Exchange)}

/-- The saga has forked the first `k` workers, and is about to be sent the marker of the last. -/
structure Forking (w : World σ) (o : RunOptions) (g : Nat) (workers : List Worker)
    (stands : Nat → σ → Prop)
    (k : Nat) (m : Machine (σ × List Exchange)) (c : Config (σ × List Exchange)) : Prop where
  unfinished : c.isFinal = false
  idle : c.starts = []
  sends : c.step w.recorded o =
    resume w.recorded m [.batch [], .loop 0] 0 (.send (Worker.receipt workers k))
  forked : ∃ started, m.Forked g started workers k ∧
    (started = true ∨ Worker.receipt workers k = .null)
  holds : stands k m.outer.1
  steps : m.steps = k

/-- The saga is asked first. -/
theorem forking_launched (w : World σ) (o : RunOptions) (g : Nat)
    (workers : List Worker) {outer : σ}
    (name : String) (ready : stands 0 outer) :
    ∃ m, Forking w o g workers stands 0 m (launched (outer, []) name g) := by
  obtain ⟨m, hsends, ⟨u, hu, hco, hundone, _⟩, hsize, hpending, hfinished, hsteps, houter⟩ :=
    step_launched w.recorded o (outer, []) name g
  have hmanned : m.Manned workers [] [] :=
    { workers := by simp, positive := by simp, known := by simp, nodup :=
      List.nodup_nil, pending := hpending,
      unmade := by simp [Registry.left], ended := by simp, heard := by rw [houter]; rfl }
  exact ⟨m,
    rfl, rfl, hsends, ⟨false, ⟨hmanned, rfl, ⟨u, hu, hco, hundone⟩, hsize, hfinished⟩, Or.inr rfl⟩,
    by rw [houter]; exact ready, hsteps⟩

/-- What the saga asks for next is interpreted, once its step has been counted. -/
theorem Forking.asks (h : Forking w o g workers stands k m c)
    (hlimit : k < o.stepLimit) {e : Effect} {s : σ}
    (hresume : w.resume m.view g (.send (Worker.receipt workers k)) m.outer.1 =
      (.yielded (.effect e), s)) :
    ∃ (m₁ : Machine (σ × List Exchange)) (c₁ : Config (σ × List Exchange)),
      Leads w.recorded o c [] c₁ ∧ c₁.isFinal = false ∧ c₁.starts = [] ∧
      c₁.step w.recorded o =
        ofOutcome [.driving 0, .batch [], .loop 0] (m₁.interpretEffect w.recorded 0 e false) ∧
      m₁.Forked g true workers k ∧ m₁.outer.1 = s ∧ m₁.steps = k + 1 := by
  obtain ⟨started, forked, hsignal⟩ := h.forked
  obtain ⟨u, hu, hco, hundone⟩ := forked.root
  generalize hsent : Worker.receipt workers k = sent at hresume hsignal
  have hyields : w.recorded.resume m.view g (.send sent) m.outer =
      (.yielded (.effect e), s, m.outer.2 ++ [.resumed g (.send sent) (.yielded (.effect e))]) := by
    simp only [World.recorded, hresume]
  have hasked := h.sends
  rw [hsent, resume_yields hu hco hsignal hyields] at hasked
  generalize hm₁ :
    m.holding 0 ⟨[g], true⟩ (s, m.outer.2 ++ [.resumed g (.send sent) (.yielded (.effect e))]) = m₁
    at hasked
  have hsteps : m₁.steps = k := by rw [← hm₁]; exact h.steps
  have hinterpret : m₁.interpret w.recorded o 0 (.effect e) false =
      m₁.counted.interpretEffect w.recorded 0 e false := by
    unfold Machine.interpret
    rw [m₁.tick_of_lt (hsteps ▸ hlimit)]
  have hforked : m₁.Forked g true workers k := by
    rw [← hm₁]
    refine forked.of_same rfl rfl (Registry.size_modify ..)
      (fun i hi => Registry.get?_modify_ne hi) ?_
      ⟨_, Machine.get?_holding hu _ _, rfl, hundone⟩
    exact (List.filter_append ..).trans (List.append_nil _)
  refine ⟨m₁.counted, _, .one h.unfinished h.idle hasked, rfl, rfl, ?_, ?_, ?_, ?_⟩
  · show ofOutcome _ (m₁.interpret w.recorded o 0 _ false) = _
    rw [hinterpret]
  · exact hforked.of_same rfl rfl rfl (fun _ _ => rfl) rfl hforked.root
  · rw [← hm₁]
    rfl
  · exact congrArg (· + 1) hsteps

/-- A forked worker that has run is over before the saga goes on. -/
theorem leads_afterFork {t : Nat} {u : Task} {v : Value}
    {outer : σ × List Exchange} {below : List Frame}
    (hu : m.registry.get? t = some u) (planned : u.Planned worker.plan worker.call)
    (hale : u.error = none)
    (makes : Machine.Makes w.recorded (m.modify t fun task => { task with entry := none })
      worker.plan worker.call v
      outer) :
    Leads w.recorded o ⟨m, .forked t :: below, .start t⟩ [t]
      ⟨{ m with registry := m.registry.close t v, outer }, below,
        .answer (.advance (.marker u.marker))⟩ := by
  have hget :
      ({ m with registry := m.registry.close t v, outer } : Machine (σ × List Exchange)).get? t =
      some (u.closed v) := Registry.get?_close_self hu v
  have hafter : step w.recorded o
      ⟨{ m with registry := m.registry.close t v, outer }, .forked t :: below, .done⟩ =
      ⟨{ m with registry := m.registry.close t v, outer }, below,
        .answer (.advance (.marker u.marker))⟩ := by
    show ofOutcome below (Machine.afterFork _ t) = _
    unfold Machine.afterFork
    simp only [hget, show (u.closed v).error = none from hale]
    rfl
  exact .starting rfl rfl (step_start_planned hu planned makes) (.one rfl rfl hafter)

theorem Forking.of_forked (hworker : workers[k]? = some worker)
    (hforked : m.Forked g true workers (k + 1))
    (holds : stands (k + 1) m.outer.1) (steps : m.steps = k + 1) :
    Forking w o g workers stands (k + 1) m
      ⟨m, [.driving 0, .batch [], .loop 0],
        .answer (.advance (.marker (worker.task (k + 1)).marker))⟩ where
  unfinished := rfl
  idle := rfl
  sends := by
    rw [Worker.receipt_succ hworker]
    rfl
  forked := ⟨true, hforked, Or.inl rfl⟩
  holds := holds
  steps := steps

/-- The next worker is forked, and runs if it need not wait. -/
theorem Forking.next (forks : w.Forks g workers stands) (h : Forking w o g workers stands k m c)
    (hworker : workers[k]? = some worker) (hlimit : k < o.stepLimit) :
    ∃ m' c', Leads w.recorded o c (([worker.task (k + 1)].filter (·.prompt)).map (·.id)) c' ∧
      Forking w o g workers stands (k + 1) m' c' := by
  obtain ⟨s, hresume, hplans⟩ := forks.forks hworker m.view m.outer.1 h.holds
  obtain ⟨m₁, c₁, hleads, hfinal, hidle, hstep, hforked, houter, hsteps⟩ := h.asks hlimit hresume
  obtain ⟨s₁, hplan, hstands⟩ := hplans m₁.view
  obtain ⟨m₂, hired, houter₂, hsteps₂, heffect⟩ :=
    hforked.interpretFork hworker (houter.symm ▸ hplan)
  rw [← houter₂] at hstands
  rw [heffect] at hstep
  by_cases hnow : worker.plan.wait = .now
  · -- the worker runs at once
    have hprompt : (worker.task (k + 1)).prompt = true := decide_eq_true hnow
    obtain ⟨v, s₂, hmakes, hstands₃⟩ :=
      makes_worker (forks.makes (k + 1)) (List.mem_of_getElem? hworker)
      (m₂.modify (k + 1) fun task => { task with entry := none }) hstands
    rw [if_pos hnow] at hstep
    rw [List.filter_cons_of_pos hprompt]
    exact ⟨_, _,
      hleads.trans (.head hfinal hidle hstep (leads_afterFork (hired.manned.unmade _ hired.mem_left)
      (worker.planned _) rfl hmakes)), .of_forked hworker (hired.prompt hprompt v s₂) hstands₃
      (hsteps₂.trans hsteps)⟩
  · have hlate : (worker.task (k + 1)).prompt = false := decide_eq_false hnow
    rw [if_neg hnow] at hstep
    rw [List.filter_cons_of_neg (by simp [hlate]), List.filter_nil]
    exact ⟨_, _, hleads.trans (.one hfinal hidle hstep),
      .of_forked hworker (hired.late hlate) hstands
      (hsteps₂.trans hsteps)⟩

/-- All workers are forked, one after the other. -/
theorem leads_forking (forks : w.Forks g workers stands) {outer : σ} (name : String)
    (ready : stands 0 outer)
    (hk : k ≤ workers.length) (hlimit : k ≤ o.stepLimit) :
    ∃ m c, Leads w.recorded o (launched (outer, []) name g)
        (((Worker.tasks (workers.take k)).filter (·.prompt)).map (·.id)) c ∧
      Forking w o g workers stands k m c := by
  induction k with
  | zero =>
    obtain ⟨m, h⟩ := forking_launched w o g workers name ready
    exact ⟨m, _, .refl _, h⟩
  | succ k ih =>
    obtain ⟨m, c, hleads, h⟩ := ih (Nat.le_of_succ_le hk) (Nat.le_of_succ_le hlimit)
    have hworker : workers[k]? = some workers[k] := List.getElem?_eq_getElem hk
    obtain ⟨m', c', hnext, h'⟩ := h.next forks hworker hlimit
    refine ⟨m', c', ?_, h'⟩
    rw [Worker.tasks_take_succ hworker, List.filter_append, List.map_append]
    exact hleads.trans hnext

/-- A join of a crew that is known is settled as far as it is over. -/
theorem interpretJoin_crew {crew : List Task} (hknown : ∀ t ∈ crew, t.id < m.registry.size) :
    m.interpretJoin (.listed false (crew.map Task.marker)) =
      if (m.registry.left crew).map (·.id) =
        [] then .advance m (m.registry.settleFinished (.ofCrew crew)).unwrap
      else .answer m
        (.block ⟨.join, m.registry.settleFinished (.ofCrew crew), (m.registry.left crew).map (·.id),
        none⟩) := by
  have hfound : m.unknownTarget? (.listed false (crew.map Task.marker)) = none := by
    unfold Machine.unknownTarget?
    rw [Option.map_eq_none_iff, List.find?_eq_none]
    intro marker hmarker
    obtain ⟨t, ht, rfl⟩ := List.mem_map.mp hmarker
    obtain ⟨u, hu⟩ := Registry.exists_of_lt (hknown t ht)
    simp [Machine.get?, Task.marker, hu]
  have hshape : Pending.ofTargets (.listed false (crew.map Task.marker)) = .ofCrew crew :=
    congrArg Pending.list (List.map_map ..)
  unfold Machine.interpretJoin
  simp only [hfound, hshape, Registry.waitingOn_ofCrew, List.isEmpty_iff]

/-- The root waits for those of a crew that have not run. -/
theorem leads_joining {crew ran : List Task} {P : σ → Prop} (manned : m.Manned workers crew ran)
    (holds : P m.outer.1)
    (root : ∃ u, m.registry.get? 0 = some u ∧ u.coroutine = some ⟨[g], true⟩ ∧ u.done = false)
    (late : ∀ t ∈ m.registry.left crew, t.wait.isNow = false)
    (order : sortByPriority crew = ran ++ sortByPriority (m.registry.left crew)) :
    ∃ m', Leads w.recorded o ⟨m, [.driving 0, .batch [], .loop 0], .answer (.block ⟨.join,
        m.registry.settleFinished (.ofCrew crew), (m.registry.left crew).map (·.id), none⟩)⟩ []
        ⟨m', [.batch [], .loop 0], .done⟩ ∧
      Joined g workers crew ran P ((m'.registry.left crew).map (·.id)) m' ∧
      m'.registry.left crew = m.registry.left crew ∧ m'.steps = m.steps := by
  generalize hi :
    (⟨.join, m.registry.settleFinished (.ofCrew crew), (m.registry.left crew).map (·.id), none⟩ :
    Interruption) = i
  obtain ⟨m', hblocked, hreg, hsteps, houter⟩ :=
    leads_blocked (w := w.recorded) (o := o) m [.batch [], .loop 0] 0 i (Or.inl rfl)
  have hkeeps : m.registry.Keeps m'.registry := by
    rw [hreg]
    exact .modify _ 0 (fun task => { task with running := false }.block i) (fun _ => rfl) fun _ =>
      rfl
  obtain ⟨manned', hleft⟩ :=
    manned.of_same m' (by rw [hreg]; rfl) (by rw [hreg, Registry.size_modify])
    (fun i hi => by rw [hreg, Registry.get?_modify_ne hi]) (by rw [houter])
  obtain ⟨u, hu, hco, hundone⟩ := root
  have hroot : m'.registry.get? 0 = some (Task.block { u with running := false } i) := by
    rw [hreg]
    exact Registry.get?_modify_of_eq_some _ hu
  refine ⟨m', hblocked,
    ⟨manned', houter ▸ holds, ⟨_, hroot, hundone, rfl, hco, ?_, ?_⟩, hleft ▸ late,
    hleft ▸ order⟩, hleft, hsteps⟩
  · rw [← hi]
    rfl
  · rw [hleft]
    exact ⟨_, congrArg some hi.symm, hkeeps.settleFinished _⟩

/-- When all have been forked the saga joins them: it is sent what they have come to, or waits. -/
theorem Forking.leads_joined (forks : w.Forks g workers stands)
    (h : Forking w o g workers stands workers.length m c) (hlimit : workers.length < o.stepLimit) :
    ∃ c', Leads w.recorded o c [] c' ∧ c'.machine.steps = workers.length + 1 ∧
      ((Worker.tasks workers).filter (fun t => !t.prompt) = [] ∧
          c'.Delivers (Worker.tasks workers) (stands (workers.length + 1)) ∨
        ∃ m', c' = ⟨m', [.batch [], .loop 0], .done⟩ ∧
          Joined g workers (Worker.tasks workers) ((Worker.tasks workers).filter (·.prompt))
            (stands (workers.length + 1))
              ((m'.registry.left (Worker.tasks workers)).map (·.id)) m' ∧
          m'.registry.left (Worker.tasks workers) =
            (Worker.tasks workers).filter (fun t => !t.prompt) ∧
          m'.registry.left (Worker.tasks workers) ≠ []) := by
  obtain ⟨s, hresume, hstands⟩ := forks.joins m.view m.outer.1 h.holds
  obtain ⟨m₁, c₁, hleads, hfinal, hidle, hstep, hforked, houter, hsteps⟩ := h.asks hlimit hresume
  obtain ⟨manned, hleft, root, -, -⟩ := hforked
  rw [List.take_length] at manned hleft
  have hsorted := Worker.sort_tasks workers
  have hlate : ∀ t ∈ m₁.registry.left (Worker.tasks workers), t.wait.isNow = false := by
    intro t ht
    rw [hleft, List.mem_filter, Bool.not_eq_true'] at ht
    exact Worker.isNow_eq_false ht.1 ht.2
  generalize Worker.tasks workers = crew at manned hleft hstep hsorted hlate ⊢
  rw [← hleft] at hsorted
  rw [← houter] at hstands
  have heffect :
      m₁.interpretEffect w.recorded 0 (.join (.listed false (crew.map Task.marker))) false = _ :=
    interpretJoin_crew manned.known
  rw [heffect] at hstep
  by_cases hnone : (m₁.registry.left crew).map (·.id) = []
  · have hnil : m₁.registry.left crew = [] := List.map_eq_nil_iff.mp hnone
    rw [if_pos hnone, Registry.unwrap_ofCrew hnil] at hstep
    refine ⟨_, hleads.trans (.one hfinal hidle hstep), hsteps,
      Or.inl ⟨hleft ▸ hnil, rfl, hstands, ?_⟩⟩
    show m₁.outer.2.filter _ = _
    rw [manned.heard, hsorted, hnil, sortByPriority_nil, List.append_nil]
    rfl
  · rw [if_neg hnone] at hstep
    obtain ⟨m₂, hblocked, joined, hleft₂, hsteps₂⟩ :=
      leads_joining (w := w) (o := o) manned hstands root hlate hsorted
    exact ⟨_, hleads.trans (.head hfinal hidle hstep hblocked), hsteps₂.trans hsteps,
      Or.inr ⟨m₂, rfl, joined,
      hleft₂.trans hleft, fun hnil => hnone (List.map_eq_nil_iff.mpr (hleft₂ ▸ hnil))⟩⟩

/-- Where the limit allows for it, the saga is sent what the workers have come to, and they have run
by priority. -/
theorem exists_delivery (forks : w.Forks g workers stands) {outer : σ} (name : String)
    (ready : stands 0 outer)
    (hlimit : 2 * workers.length + 1 ≤ o.stepLimit) :
    ∃ c, Leads w.recorded o (launched (outer, []) name g)
      ((sortByPriority (Worker.tasks workers)).map (·.id)) c ∧
      c.Delivers (Worker.tasks workers) (stands (workers.length + 1)) ∧
      c.machine.steps ≤ 2 * workers.length + 1 := by
  obtain ⟨m, c, hleads, h⟩ := leads_forking (o := o) forks name ready (Nat.le_refl _) (by omega)
  obtain ⟨c₁, hleads₁, hsteps₁, hjoined⟩ := h.leads_joined forks (by omega)
  rw [List.take_length] at hleads
  rw [Worker.sort_tasks, List.map_append]
  rcases hjoined with ⟨hnone, hdelivers⟩ | ⟨m₁, rfl, joined, hleft, hsome⟩
  · rw [hnone, sortByPriority_nil, List.map_nil]
    exact ⟨c₁, hleads.trans hleads₁, hdelivers, by omega⟩
  · have hsteps₁ : m₁.steps = workers.length + 1 := hsteps₁
    obtain ⟨m₂, hleads₂, joined₂, hleft₂, hnone₂, hsteps₂⟩ :=
      joined.leads_loop (w := w) (o := o) (Or.inr rfl) hsome (by omega)
    have hlength : (m₁.registry.left (Worker.tasks workers)).length ≤ workers.length := by
      refine (List.length_filter_le ..).trans (Nat.le_of_eq ?_)
      simp [Worker.tasks]
    rw [← hleft₂] at joined₂ hsome hleft hlength
    obtain ⟨c₃, hleads₃, hdelivers, hsteps₃⟩ :=
      joined₂.leads_delivery (o := o) (forks.makes _) rfl hnone₂ hsome (by omega)
    rw [hleft] at hleads₃
    exact ⟨c₃, hleads.trans (hleads₁.trans (hleads₂.trans hleads₃)), hdelivers, by omega⟩

end Config

/-- The world of a saga that forks the workers and joins them. It counts how often the saga is
resumed, and the calls; a call comes to how many there have been before it. -/
def Worker.world (workers : List Worker) : World (Nat × Nat) where
  resume _ _ signal s :=
    match signal with
    | .throw e => (.raised e, s)
    | .send _ =>
      match workers[s.1]? with
      | some worker => (.yielded worker.effect, s.1 + 1, s.2)
      | none =>
        (.yielded (.effect (.join (.listed false ((tasks workers).map Task.marker)))), s.1 + 1, s.2)
  plan _ _ _ s :=
    match workers[s.1 - 1]? with
    | some worker => (.ok worker.plan, s)
    | none => (.error (.harness (.plain "no plan")), s)
  invoke _ _ s := (.ok (.int s.2), s.1, s.2 + 1)
  handler? _ := none

/-- Every crew can be forked, with any waits. -/
theorem Worker.forks_world (workers : List Worker) (g : Nat) :
    (Worker.world workers).Forks g workers fun k s => s.1 = k where
  forks := by
    rintro k worker hworker view s rfl
    refine ⟨(s.1 + 1, s.2), ?_, fun view => ⟨(s.1 + 1, s.2), ?_, rfl⟩⟩
    · simp only [Worker.world, hworker]
    · simp only [Worker.world, Nat.add_sub_cancel, hworker]
  joins := by
    intro view s hs
    refine ⟨(s.1 + 1, s.2), ?_, congrArg (· + 1) hs⟩
    simp only [Worker.world, hs, List.getElem?_eq_none (Nat.le_refl _)]
  makes := by
    intro k worker _ view s hs
    exact ⟨_, _, rfl, nofun, hs⟩

/-- A function that is called after this wait. -/
def Worker.after (wait : Wait) (untiered : ∀ tier, wait ≠ .tier tier) : Worker :=
  ⟨⟨.null, [], []⟩, ⟨true, .null, none, wait⟩, rfl, rfl, untiered⟩

/-- One worker that comes last, two that come in their time, and one that need not wait. -/
def Worker.crew : List Worker :=
  [.after .last fun _ => Wait.noConfusion, .after (.tick 7) fun _ => Wait.noConfusion,
    .after .now fun _ => Wait.noConfusion, .after (.tick 3) fun _ => Wait.noConfusion]

end Rehearsal
