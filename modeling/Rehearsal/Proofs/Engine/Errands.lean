import Rehearsal.Proofs.Engine.Assembling
import Rehearsal.Proofs.Engine.Ceiling

/-!
# Calls that are made when their turn comes

Where it is known beforehand what every call comes to, several steps can be taken at once. A call
that has not been made is picked, started and over; a placeholder that waits for it is over as soon
as a round tells of the call; batches, rounds and the main loop hand over to one another. `Leads`
says where the steps lead and which tasks are started on the way.
-/
namespace Rehearsal

variable {σ : Type} {w : World σ} {o : RunOptions}

/-! ### Where steps lead -/

namespace Config

variable {c c' c'' : Config σ} {ids ids' : List Nat}

def starts (c : Config σ) : List Nat :=
  match c.control with
  | .start t => [t]
  | _ => []

/-- The tasks that the first `n` steps of the run from `c` start. -/
def started (w : World σ) (o : RunOptions) (c : Config σ) (n : Nat) : List Nat :=
  (List.range n).flatMap fun k => (run w o k c).starts

theorem started_add (w : World σ) (o : RunOptions) (c : Config σ) (k n : Nat) :
    started w o c (k + n) = started w o c k ++ started w o (run w o k c) n := by
  unfold started
  rw [List.range_add, List.flatMap_append, List.flatMap_map]
  refine congrArg (_ ++ List.flatMap · _) (funext fun j => ?_)
  rw [run_add]

theorem started_succ (w : World σ) (o : RunOptions) (c : Config σ) (n : Nat) :
    started w o c (n + 1) = started w o c n ++ (run w o n c).starts := by
  rw [started_add]
  refine congrArg (started w o c n ++ ·) ?_
  simp [started, run]

/-- **Nobody is started twice.** -/
theorem started_nodup (w : World σ) (o : RunOptions) (outer : σ) (name : String) (g n : Nat) :
    (started w o (launched outer name g) n).Nodup := by
  suffices h : ∃ begun, (run w o n (launched outer name g)).Sound begun ∧
      (∀ t ∈ started w o (launched outer name g) n, begun t) ∧
      (started w o (launched outer name g) n).Nodup by
    obtain ⟨_, _, _, h⟩ := h
    exact h
  induction n with
  | zero => exact ⟨_, sound_launched outer name g, nofun, List.nodup_nil⟩
  | succ n ih =>
    obtain ⟨begun, hc, hbegun, hnodup⟩ := ih
    rw [started_succ, run_succ]
    generalize run w o n (launched outer name g) = c at hc ⊢
    generalize started w o (launched outer name g) n = ids at hbegun hnodup ⊢
    by_cases hf : c.isFinal = true
    · have hidle : c.starts = [] := by
        obtain ⟨m, stack, control⟩ := c
        cases control with
        | start t => simp [isFinal] at hf
        | _ => rfl
      rw [if_pos hf, hidle, List.append_nil]
      exact ⟨begun, hc, hbegun, hnodup⟩
    · rw [if_neg hf]
      refine ⟨_, sound_step w o hc, ?_, ?_⟩
      · intro t ht
        rcases List.mem_append.mp ht with ht | ht
        · exact Or.inl (hbegun t ht)
        · obtain ⟨m, stack, control⟩ := c
          cases control with
          | start x => exact Or.inr (List.mem_singleton.mp ht)
          | _ => cases ht
      · obtain ⟨m, stack, control⟩ := c
        cases control with
        | start t =>
          cases hc with
          | starting _ _ _ _ first =>
            exact List.nodup_append.mpr ⟨hnodup, List.nodup_singleton t, fun i hi j hj => by
              rintro rfl
              exact first (List.mem_singleton.mp hj ▸ hbegun i hi)⟩
        | _ => exact (List.append_nil ids).symm ▸ hnodup

/-- Steps lead from one configuration to another, and start these tasks in this order. A trace that
cannot be written is passed over, as if it had been. -/
inductive Leads (w : World σ) (o : RunOptions) : Config σ → List Nat → Config σ → Prop
  | refl (c : Config σ) : Leads w o c [] c
  | step {c c' : Config σ} {ids : List Nat} (unfinished : c.isFinal = false)
      (onward : Leads w o (c.step w o) ids c') : Leads w o c (c.starts ++ ids) c'
  | skip {c c' c'' : Config σ} {ids : List Nat} (untraced : c.Untraced o)
      (same : c'.machine.outer = c.machine.outer) (onward : Leads w o c' ids c'') :
      Leads w o c ids c''

namespace Leads

theorem trans (h : Leads w o c ids c') (h' : Leads w o c' ids' c'') :
    Leads w o c (ids ++ ids') c'' := by
  induction h with
  | refl => exact h'
  | step unfinished _ ih =>
    rw [List.append_assoc]
    exact .step unfinished (ih h')
  | skip untraced same _ ih => exact .skip untraced same (ih h')

/-- One step that starts nothing. -/
theorem one (unfinished : c.isFinal = false) (idle : c.starts = []) (hs : c.step w o = c') :
    Leads w o c [] c' := by
  have h : Leads w o c (c.starts ++ []) c' := .step unfinished (hs ▸ .refl _)
  rwa [idle] at h

/-- One step that starts nothing, and more. -/
theorem head (unfinished : c.isFinal = false) (idle : c.starts = []) (hs : c.step w o = c')
    (h : Leads w o c' ids c'') : Leads w o c ids c'' := (one unfinished idle hs).trans h

/-- A step that starts a task, and more. -/
theorem starting {t : Nat} (unfinished : c.isFinal = false) (starts : c.starts = [t])
    (hs : c.step w o = c')
    (h : Leads w o c' ids c'') : Leads w o c (t :: ids) c'' := by
  have h : Leads w o c (c.starts ++ ids) c'' := .step unfinished (hs ▸ h)
  rwa [starts] at h

/-- Steps that are said to lead there do, where all can be traced. -/
theorem exists_run (h : Leads w o c ids c') (traceable : c.Traceable w o) :
    ∃ n, run w o n c = c' ∧ started w o c n = ids := by
  induction h with
  | refl c => exact ⟨0, rfl, rfl⟩
  | skip untraced _ _ _ => exact (traceable 0 untraced).elim
  | @step c c' ids unfinished _ ih =>
    have hone : run w o 1 c = c.step w o := run_one w o unfinished 0
    obtain ⟨n, hrun, hstarted⟩ := ih (hone ▸ traceable.run 1)
    refine ⟨1 + n, ?_, ?_⟩
    · rw [run_add, hone, hrun]
    · rw [started_add, hone, hstarted]
      simp [started, run]

end Leads

/-! ### Under a ceiling -/

theorem started_of_le (w : World σ) (o : RunOptions) (c : Config σ) {k n : Nat} (h : k ≤ n) :
    started w o c k <+: started w o c n := by
  obtain ⟨d, rfl⟩ := Nat.exists_eq_add_of_le h
  exact ⟨_, (started_add w o c k d).symm⟩

/-- A run that is given up starts nothing more. -/
theorem started_of_abort (w : World σ) (o : RunOptions) {f : Failure}
    (h : c.control = .abort f) (n : Nat) :
    started w o c n = [] := by
  refine List.flatMap_eq_nil_iff.mpr fun k _ => ?_
  simp [starts, run_abort w o h k]

/-- What the run from `c` has started by its configuration `n`, and what is on record by then, is
where `ids` and `record` begin. -/
structure Begun (w : World σ) (o : RunOptions) (c : Config (σ × List Exchange)) (ids : List Nat)
    (record : List Exchange) (n : Nat) : Prop where
  started : started w.recorded o c n <+: ids
  record : (run w.recorded o n c).machine.outer.2 <+: record

namespace Leads

variable {w : World σ} {c c' : Config (σ × List Exchange)}

theorem record (h : Leads w.recorded o c ids c') : c.machine.outer.2 <+: c'.machine.outer.2 := by
  induction h with
  | refl c => exact List.prefix_rfl
  | @step c _ _ unfinished _ ih =>
    have hone : run w.recorded o 1 c = c.step w.recorded o := run_one w.recorded o unfinished 0
    exact (hone ▸ record_run w o c 1).trans ih
  | skip _ same _ ih => exact same ▸ ih

/-- Where the steps do not lead there, the run is given up on the way over a trace. -/
theorem exists_run_or_untraced (h : Leads w.recorded o c ids c') :
    ∃ n, run w.recorded o n c = c' ∧ started w.recorded o c n = ids ∨
      (run w.recorded o n c).Untraced o ∧ Begun w o c ids c'.machine.outer.2 n := by
  induction h with
  | refl c => exact ⟨0, .inl ⟨rfl, rfl⟩⟩
  | @skip c _ _ ids untraced same onward _ =>
    exact ⟨0, .inr ⟨untraced, List.nil_prefix, same ▸ onward.record⟩⟩
  | @step c c' ids unfinished _ ih =>
    have hone : run w.recorded o 1 c = c.step w.recorded o := run_one w.recorded o unfinished 0
    obtain ⟨n, hn⟩ := ih
    have hrun : run w.recorded o (1 + n) c = run w.recorded o n (c.step w.recorded o) := by
      rw [run_add, hone]
    have hstarted : started w.recorded o c (1 + n) =
        c.starts ++ started w.recorded o (c.step w.recorded o) n := by
      rw [started_add, hone]
      simp [started, run]
    refine ⟨1 + n, ?_⟩
    rcases hn with ⟨hend, hids⟩ | ⟨untraced, begun⟩
    · exact .inl ⟨hrun.trans hend, hstarted.trans (by rw [hids])⟩
    · exact .inr ⟨hrun ▸ untraced, hstarted ▸ (List.prefix_append_right_inj _).mpr begun.started,
        hrun ▸ begun.record⟩

end Leads

/-- A run that is cut off has begun like the run under the higher ceiling. -/
theorem CutOff.begun {w : World σ} {c : Config (σ × List Exchange)} {limit bound k n : Nat}
    (h : CutOff w.recorded (o.within limit) o.stepLimit c k) (hk : k < n)
    (hticks : (run w.recorded o k c).ticks o = true)
    (hat : (run w.recorded o k c).machine.steps = o.stepLimit) (low : o.stepLimit < bound) :
    ∃ i, (run w.recorded o i c).CutShort o bound ∧
      Begun w o c (started w.recorded (o.within limit) c n)
        (run w.recorded (o.within limit) n c).machine.outer.2 i := by
  have hsame : ∀ j ≤ k, run w.recorded o j c = run w.recorded (o.within limit) j c := h.same
  have hstarted : ∀ {j}, j ≤ k + 1 →
      started w.recorded o c j = started w.recorded (o.within limit) c j := fun hj =>
    List.flatMap_congr fun j' hmem =>
      congrArg starts
        (hsame j' (Nat.le_of_lt_succ (Nat.lt_of_lt_of_le (List.mem_range.mp hmem) hj)))
  have hrecord : (run w.recorded (o.within limit) k c).machine.outer.2 <+:
      (run w.recorded (o.within limit) n c).machine.outer.2 := by
    obtain ⟨d, rfl⟩ := Nat.exists_eq_add_of_le hk.le
    rw [run_add]
    exact record_run w _ _ d
  cases hlong : (run w.recorded o k c).machine.registry.waitsLong with
  | true =>
    refine ⟨k, .unreportable low ⟨hticks, hat.ge, hlong⟩, ?_, ?_⟩
    · rw [hstarted (Nat.le_succ k)]
      exact started_of_le _ _ _ hk.le
    · rw [hsame k (Nat.le_refl k)]
      exact hrecord
  | false =>
    obtain ⟨dump, i, hfinal, hcontrol, _, houter⟩ := h.ends (hsame k (Nat.le_refl k) ▸ hlong)
    have hsame' : (o.within limit).within o.stepLimit = o := rfl
    rw [hsame'] at hfinal hcontrol houter
    refine ⟨i, .reported low hfinal hcontrol, ?_, houter ▸ hrecord⟩
    have hafter : started w.recorded o c i <+: started w.recorded o c (k + 1) := by
      rcases Nat.le_total i (k + 1) with hi | hi
      · exact started_of_le _ _ _ hi
      · obtain ⟨d, rfl⟩ := Nat.exists_eq_add_of_le hi
        have hlive : (run w.recorded o k c).isFinal = false := by
          cases hf : (run w.recorded o k c).isFinal with
          | false => rfl
          | true => rw [not_ticks_of_isFinal hf] at hticks; cases hticks
        obtain ⟨below, dump', hpast⟩ := step_past w.recorded hticks hat.ge hlong
        have habort : ∃ f, (run w.recorded o (k + 1) c).control = .abort f := by
          rw [run_succ, if_neg (by simp [hlive]), hpast]
          exact ⟨_, rfl⟩
        obtain ⟨f, habort⟩ := habort
        rw [started_add, started_of_abort w.recorded o habort, List.append_nil]
    rw [hstarted (Nat.le_refl _)] at hafter
    exact hafter.trans (started_of_le _ _ _ hk)

/-- Where steps lead under a high ceiling, they lead under a lower one, or the run is cut short on
the way. -/
theorem Leads.within {w : World σ} {outer : σ} {name : String} {g bound : Nat}
    {c' : Config (σ × List Exchange)} (low : o.stepLimit < bound)
    (h : Leads w.recorded (o.within bound) (launched (outer, []) name g) ids c')
    (hsteps : c'.machine.steps ≤ bound) :
    ∃ n, run w.recorded o n (launched (outer, []) name g) = c' ∧
        started w.recorded o (launched (outer, []) name g) n = ids ∨
      (run w.recorded o n (launched (outer, []) name g)).CutShort o bound ∧
        Begun w o (launched (outer, []) name g) ids c'.machine.outer.2 n := by
  obtain ⟨n, hn⟩ := h.exists_run_or_untraced
  have within :
      (run w.recorded (o.within bound) n (launched (outer, []) name g)).machine.steps ≤ bound := by
    rcases hn with ⟨hend, _⟩ | ⟨untraced, _⟩
    · exact hend ▸ hsteps
    · exact Nat.not_lt.mp untraced.within
  have begun : Begun w (o.within bound) (launched (outer, []) name g) ids c'.machine.outer.2 n := by
    rcases hn with ⟨rfl, rfl⟩ | ⟨_, begun⟩
    · exact ⟨List.prefix_rfl, List.prefix_rfl⟩
    · exact begun
  rcases same_or_cutOff w.recorded o (outer, []) name g low.le within with
    ⟨within', same⟩ | ⟨k, hk, cut, hticks, hat⟩
  · have hstarted : started w.recorded o (launched (outer, []) name g) n =
        started w.recorded (o.within bound) (launched (outer, []) name g) n :=
      List.flatMap_congr fun j hmem => congrArg starts (same j (List.mem_range.mp hmem).le)
    rw [← same n (Nat.le_refl n), ← hstarted] at hn
    refine ⟨n, hn.imp_right fun hn => ⟨?_, ?_⟩⟩
    · exact .untraced ⟨hn.1.untraceable, within', hn.1.unwritten⟩
    · exact ⟨hstarted ▸ begun.started, same n (Nat.le_refl n) ▸ begun.record⟩
  · obtain ⟨i, short, begun'⟩ := cut.begun hk hticks hat low
    exact ⟨i, .inr ⟨short, begun'.started.trans begun.started, begun'.record.trans begun.record⟩⟩

end Config

/-! ### Tasks without children come to their end -/

def Task.closed (t : Task) (v : Value) : Task :=
  { t with entry := none, children := [], running := false }.finish v

def Registry.close (r : Registry) (t : Nat) (v : Value) : Registry :=
  (r.modify t (·.closed v)).retire t

namespace Registry

variable {r : Registry} {t i : Nat} {u : Task} {v : Value} {f g : Task → Task}

theorem modify_congr (hu : r.get? t = some u) (h : f u = g u) : r.modify t f = r.modify t g := by
  refine congrArg (fun tasks => { r with tasks }) (Array.ext_getElem? fun i => ?_)
  rw [Array.getElem?_modify, Array.getElem?_modify]
  split
  · rename_i hi
    rw [show r.tasks[i]? = some u from hi ▸ hu, Option.map_some, Option.map_some, h]
  · rfl

theorem modify_eq_self (hu : r.get? t = some u) (h : f u = u) : r.modify t f = r := by
  refine congrArg (fun tasks => { r with tasks }) (Array.ext_getElem? fun i => ?_)
  rw [Array.getElem?_modify]
  split
  · rename_i hi
    rw [show r.tasks[i]? = some u from hi ▸ hu, Option.map_some, h]
  · rfl

theorem get?_close (hu : r.get? t = some u) (v : Value) (i : Nat) :
    (r.close t v).get? i = if i = t then some (u.closed v) else r.get? i := by
  rw [close, get?_retire, get?_modify]
  split
  · rename_i hi
    rw [hi, hu, Option.map_some]
  · rfl

theorem get?_close_self (hu : r.get? t = some u) (v : Value) :
    (r.close t v).get? t = some (u.closed v) := by
  rw [get?_close hu, if_pos rfl]

theorem get?_close_ne (hi : i ≠ t) (v : Value) : (r.close t v).get? i = r.get? i := by
  rw [close, get?_retire, get?_modify_ne hi]

theorem keeps_close (hd : r.isDone t = false) (v : Value) : r.Keeps (r.close t v) := by
  intro d u hu hdone
  have hne : d ≠ t := by
    rintro rfl
    rw [isDone_of_eq_some hu, hdone] at hd
    cases hd
  exact ⟨u, (get?_close_ne hne v).trans hu, hdone, rfl⟩

@[simp] theorem size_close (r : Registry) (t : Nat) (v : Value) : (r.close t v).size = r.size := by
  rw [close, size_retire, size_modify]

theorem pending_close (ht : t ∈ r.pending) (v : Value) :
    (r.close t v).pending = r.pending.erase t := by
  have hmem : t ∈ (r.modify t (·.closed v)).pending := ht
  rw [close, retire_of_mem hmem]
  rfl

theorem finished_close (ht : t ∈ r.pending) (v : Value) :
    (r.close t v).finished = r.finished ++ [t] := by
  have hmem : t ∈ (r.modify t (·.closed v)).pending := ht
  rw [close, retire_of_mem hmem]
  rfl

end Registry

/-- A task without children is closed when it returns. -/
theorem Machine.complete_leaf {m : Machine σ} {t : Nat} {u : Task} (hu : m.registry.get? t = some u)
    (hlive : m.registry.live u = []) (entry : u.entry = none)
    (idle : u.running = false) (v : Value) :
    m.complete o t v = { m with registry := m.registry.close t v } := by
  have hget : m.get? t = some u := hu
  have hempty : (u.children.filter fun c => !m.registry.isDone c).isEmpty = true :=
    List.isEmpty_iff.mpr hlive
  unfold Machine.complete Machine.holdForChildren
  simp only [hget, hempty, if_true]
  refine congrArg (fun registry => { m with registry }) ?_
  show ((m.registry.modify t _).modify t _).retire t = _
  rw [Registry.modify_modify, Registry.close]
  refine congrArg (Registry.retire · t) (Registry.modify_congr hu ?_)
  have hchildren : (u.children.filter fun c => !m.registry.isDone c) = [] := hlive
  simp only [Task.closed, Task.finish, hchildren, entry, idle]

theorem Task.removeChildren_of_disjoint {u : Task} {ids : List Nat}
    (h : ∀ c ∈ u.children, c ∉ ids) :
    u.removeChildren ids = u := by
  have hsame : (u.children.filter fun c => !ids.contains c) = u.children :=
    List.filter_eq_self.mpr fun c hc => by simpa using h c hc
  unfold Task.removeChildren
  rw [hsame]

theorem Task.awaiting_of_eq_some {u : Task} {i : Interruption} (h : u.interruption = some i) :
    u.awaiting i = u := by
  unfold Task.awaiting
  rw [← h]

/-! ### Calls -/

structure Task.Planned (plan : CallPlan) (call : Call) (t : Task) : Prop where
  entry : t.entry = some (.planned plan call)
  wait : t.wait = plan.wait
  children : t.children = []
  interruption : t.interruption = none
  running : t.running = false
  done : t.done = false

theorem Task.Planned.fresh (plan : CallPlan) (call : Call) (id : Nat)
    (name : String) (parent : Option Nat)
    (detached : Bool) :
    (Task.fresh id name plan.wait parent detached none (some (.planned plan call))).Planned plan
      call :=
  ⟨rfl, rfl, rfl, rfl, rfl, rfl⟩

/-- A placeholder that waits for task `d`, its only child. -/
structure Task.AwaitsChild (d : Nat) (t : Task) : Prop where
  interruption : t.interruption = some (.onChild d)
  children : t.children = [d]
  wait : t.wait = .tier .generator
  entry : t.entry = none
  coroutine : t.coroutine = none
  running : t.running = false
  done : t.done = false

theorem Task.Planned.isSelectable {plan : CallPlan} {call : Call} {t : Task}
    (h : t.Planned plan call) :
    t.isSelectable = true := by
  simp [Task.isSelectable, Task.isBlocked, h.done, h.children, h.running, h.interruption]

theorem Task.AwaitsChild.isSelectable {d : Nat} {t : Task} (h : t.AwaitsChild d) :
    t.isSelectable = false := by
  simp [Task.isSelectable, h.children]

/-- Seen by a world whose functions are asked in state `s`, the call comes to a value that is no
generator. -/
def Machine.Makes (w : World σ) (m : Machine σ) (plan : CallPlan) (call : Call)
    (v : Value) (s : σ) : Prop :=
  m.produce w plan call = (.ok v, { m with outer := s }) ∧ ∀ g, v ≠ .generator g

namespace Config

variable {m : Machine σ} {below : List Frame} {t : Nat} {u : Task} {plan : CallPlan}
    {call : Call} {v : Value}
  {s : σ} {ids rest : List Nat}

/-- A call that is made is over. -/
theorem step_start_planned (hu : m.registry.get? t = some u) (planned : u.Planned plan call)
    (makes : Machine.Makes w (m.modify t fun task => { task with entry := none }) plan call v s) :
    step w o ⟨m, below, .start t⟩ =
      ⟨{ m with registry := m.registry.close t v, outer := s }, below, .done⟩ := by
  obtain ⟨hproduce, plain⟩ := makes
  have hstart : step w o ⟨m, below, .start t⟩ = halt (Machine.complete o
      { m.modify t (fun task => { task with entry := none }) with outer := s } t v) below := by
    show start w o m below t = _
    rw [start_eq w o hu planned.entry]
    simp only [hproduce]
    unfold afterEntry
    split
    · rename_i g hv
      exact (plain g (Except.ok.inj hv)).elim
    · rename_i hv
      cases hv
      rfl
    · rename_i hv
      cases hv
  have hu' : (m.registry.modify t fun task => { task with entry := none }).get? t =
      some { u with entry := none } := Registry.get?_modify_of_eq_some _ hu
  have hlive : (m.registry.modify t fun task => { task with entry := none }).live
      { u with entry := none } = [] := by
    simp [Registry.live, planned.children]
  rw [hstart, Machine.complete_leaf
    (m := { m.modify t (fun task => { task with entry := none }) with outer := s })
    hu' hlive rfl planned.running]
  refine congrArg (fun r => (⟨{ m with registry := r, outer := s }, below, .done⟩ : Config σ)) ?_
  show Registry.close (m.registry.modify t _) t v = _
  rw [Registry.close, Registry.modify_modify]
  rfl

/-- A call of a batch is made when its turn comes. -/
theorem leads_batch_cons (hu : m.registry.get? t = some u) (planned : u.Planned plan call)
    (makes : Machine.Makes w (({ m with handled := none } : Machine σ).modify t
      fun task => { task with entry := none }) plan call v s) :
    Leads w o ⟨m, .batch (t :: rest) :: below, .done⟩ [t]
      ⟨{ m with registry := m.registry.close t v, handled := none, outer := s },
        .batch rest :: below,
        .done⟩ := by
  have hget : m.get? t = some u := hu
  have hpick : step w o ⟨m, .batch (t :: rest) :: below, .done⟩ =
      ⟨m, .batch rest :: below, .runTask t⟩ := by
    show continueBatch m below (t :: rest) = _
    unfold continueBatch
    simp only [hget, planned.isSelectable, if_true]
  have hrun : step w o ⟨m, .batch rest :: below, .runTask t⟩ =
      ⟨{ m with handled := none }, .batch rest :: below, .start t⟩ := by
    show runTask m _ t = _
    unfold runTask
    simp only [hget, planned.interruption]
  exact .head rfl rfl hpick
    (.head rfl rfl hrun (.starting rfl rfl (step_start_planned hu planned makes) (.refl _)))

/-- A task whose effect cannot be answered yet is blocked. -/
theorem leads_blocked (m : Machine σ) (below : List Frame) (t : Nat) (i : Interruption) {f : Frame}
    (hf : f = .driving t ∨ f = .member t) :
    ∃ m' : Machine σ, Leads w o ⟨m, f :: below, .answer (.block i)⟩ [] ⟨m', below, .done⟩ ∧
      m'.registry = m.registry.modify t (fun task => { task with running := false }.block i) ∧
      m'.steps = m.steps ∧ m'.outer = m.outer := by
  refine ⟨(m.modify t fun task => { task with running := false }).suspend o t i, .one rfl rfl ?_,
    ?_,
    Machine.steps_suspend .., Machine.outer_suspend ..⟩
  · rcases hf with rfl | rfl <;> rfl
  · rw [Machine.registry_suspend]
    exact Registry.modify_modify ..

/-! ### Rounds -/

/-- A round passes over what is over. -/
theorem step_round_done (hu : m.registry.get? t = some u) (hd : u.done = true) :
    step w o ⟨m, .round ids (t :: rest) :: below, .done⟩ =
      ⟨m, .round ids rest :: below, .done⟩ := by
  have hget : m.get? t = some u := hu
  show continueRound m below ids (t :: rest) = _
  unfold continueRound
  simp only [hget, hd, if_true]
  rfl

/-- A round leaves a call alone that has not been made. -/
theorem step_round_planned (hu : m.registry.get? t = some u) (planned : u.Planned plan call) :
    step w o ⟨m, .round ids (t :: rest) :: below, .done⟩ =
      ⟨m, .round ids rest :: below, .done⟩ := by
  have hget : m.get? t = some u := hu
  have hsame : m.modify t (fun task => task.removeChildren ids) = m :=
    congrArg (fun registry => { m with registry })
      (Registry.modify_eq_self hu (Task.removeChildren_of_disjoint (by simp [planned.children])))
  show continueRound m below ids (t :: rest) = _
  unfold continueRound
  simp only [hget, planned.done, Bool.false_eq_true, if_false, planned.interruption, hsame]
  rfl

/-- A blocked task that a round does not tell enough of waits on. -/
theorem step_round_unsettled (rest : List Nat) (below : List Frame)
    {i i' : Interruption} {r : Registry}
    (hu : m.registry.get? t = some u) (undone : u.done = false)
    (interruption : u.interruption = some i)
    (unanswered : i.answer = none)
    (hsettle : (m.registry.modify t fun task => task.removeChildren ids).settle t i ids =
      .ok (false, i', r)) :
    step w o ⟨m, .round ids (t :: rest) :: below, .done⟩ =
      ⟨{ m with registry := r.modify t fun task => task.awaiting i' },
        .round ids rest :: below, .done⟩ := by
  show continueRound m below ids (t :: rest) = _
  unfold continueRound
  simp only [show m.get? t = some u from hu, undone, Bool.false_eq_true, if_false, interruption,
    Interruption.resolved, unanswered, Option.isSome_none, Machine.registry_modify,
    hsettle, Bool.false_and]
  rfl

/-- A round leaves a placeholder alone whose child is not told of. -/
theorem step_round_awaiting {d : Nat} (hu : m.registry.get? t = some u) (awaits : u.AwaitsChild d)
    (hd : d ∉ ids) :
    step w o ⟨m, .round ids (t :: rest) :: below, .done⟩ =
      ⟨m, .round ids rest :: below, .done⟩ := by
  have hsame : m.registry.modify t (fun task => task.removeChildren ids) = m.registry :=
    Registry.modify_eq_self hu (Task.removeChildren_of_disjoint (by simp [awaits.children, hd]))
  have hstill : m.registry.modify t (fun task => task.awaiting (.onChild d)) = m.registry :=
    Registry.modify_eq_self hu (Task.awaiting_of_eq_some awaits.interruption)
  have hsettle :
      (m.registry.modify t fun task => task.removeChildren ids).settle t (.onChild d) ids =
      .ok (false, .onChild d, m.registry) := by
    rw [hsame]
    simp [Registry.settle, Interruption.onChild, hd]
  rw [step_round_unsettled rest below hu awaits.done awaits.interruption rfl hsettle, hstill]

/-- A blocked task that a round tells of what it waits for is about to go on with the answer. -/
theorem leads_round_settled (rest : List Nat) (below : List Frame)
    {i i' : Interruption} {r : Registry}
    (hu : m.registry.get? t = some u) (undone : u.done = false) (idle : u.running = false)
    (waits : u.wait.isNow = true) (interruption : u.interruption = some i)
    (unanswered : i.answer = none)
    (hsettle :
      (m.registry.modify t fun task => task.removeChildren ids).settle t i ids = .ok (true, i', r))
    (hstill : ∃ u', r.get? t = some u' ∧ u'.coroutine = u.coroutine)
    (answer : i'.answer = some (.value v))
    (kind : i'.kind ≠ .children) :
    Leads w o ⟨m, .round ids (t :: rest) :: below, .done⟩ []
      ⟨{ m with registry := r.modify t fun task => { task with interruption := none }, handled :=
        none },
        .round ids rest :: below,
        if u.coroutine.isNone then .complete t v else .drive t (.send v)⟩ := by
  have hpick : step w o ⟨m, .round ids (t :: rest) :: below, .done⟩ =
      ⟨{ m with registry := r.modify t fun task => task.awaiting i' }, .round ids rest :: below,
        .runTask t⟩ := by
    show continueRound m below ids (t :: rest) = _
    unfold continueRound
    simp only [show m.get? t = some u from hu, undone, Bool.false_eq_true, if_false, interruption,
      Interruption.resolved, unanswered, Option.isSome_none,
      Machine.registry_modify, hsettle, waits, idle,
      Bool.not_false, Bool.and_self, if_true]
    rfl
  obtain ⟨u', hu', hco⟩ := hstill
  refine .head rfl rfl hpick (.one rfl rfl ?_)
  generalize hm' : ({ m with registry := r.modify t fun task => task.awaiting i' } : Machine σ) = m'
  have hget : m'.get? t = some (u'.awaiting i') := by
    rw [← hm']
    exact Registry.get?_modify_of_eq_some (fun task => task.awaiting i') hu'
  have hreg : (({ m' with handled := none } : Machine σ).modify t
      fun task => { task with interruption := none }) =
      { m with registry := r.modify t fun task => { task with interruption := none }, handled :=
        none } := by
    rw [← hm']
    exact congrArg (fun registry => { m with registry, handled := none })
      (Registry.modify_modify ..)
  obtain ⟨_, pending, dependencies, _⟩ := i'
  obtain rfl : _ = some (Pending.value v) := answer
  show runTask m' _ t = _
  unfold runTask
  simp only [hget, Task.awaiting, kind, if_false, hco, hreg]
  split <;> rfl

/-- A placeholder whose child is told of comes to the value of the child. -/
theorem leads_round_awaiting {d : Nat} {e : Task} (hu : m.registry.get? t = some u)
    (awaits : u.AwaitsChild d)
    (hd : d ∈ ids) (he : m.registry.get? d = some e) (hne : d ≠ t) :
    Leads w o ⟨m, .round ids (t :: rest) :: below, .done⟩ []
      ⟨{ m with registry := m.registry.close t e.result, handled := none },
        .round ids rest :: below,
        .done⟩ := by
  have hsettle :
      (m.registry.modify t fun task => task.removeChildren ids).settle t (.onChild d) ids =
      .ok (true, ⟨.generator, .task d, [d], some (.value e.result)⟩,
        m.registry.modify t fun task => task.removeChildren ids) := by
    have he' : (m.registry.modify t fun task => task.removeChildren ids).get? d = some e := by
      rw [Registry.get?_modify_ne hne, he]
    simp [Registry.settle, Interruption.onChild, hd, he', Interruption.resolve]
  have hleads := leads_round_settled (w := w) (o := o) rest below hu awaits.done awaits.running
    (by rw [awaits.wait]; rfl) awaits.interruption rfl hsettle
    ⟨_, Registry.get?_modify_of_eq_some _ hu, rfl⟩ rfl (by simp)
  simp only [awaits.coroutine, Option.isNone_none, if_true, Registry.modify_modify] at hleads
  generalize hm' : ({ m with
    registry :=
      m.registry.modify t fun task => { task.removeChildren ids with interruption := none },
    handled := none } : Machine σ) = m' at hleads
  refine hleads.trans (.one rfl rfl ?_)
  have hu' : m'.registry.get? t = some { u.removeChildren ids with interruption := none } := by
    rw [← hm']
    exact Registry.get?_modify_of_eq_some _ hu
  have hlive : m'.registry.live { u.removeChildren ids with interruption := none } = [] := by
    simp [Registry.live, Task.removeChildren, awaits.children, hd]
  show halt (m'.complete o t e.result) _ = _
  rw [Machine.complete_leaf hu' hlive awaits.entry awaits.running, ← hm']
  refine congrArg
    (fun registry => halt { m with registry, handled := none } (.round ids rest :: below)) ?_
  rw [Registry.close, Registry.modify_modify]
  exact congrArg (Registry.retire · t) (Registry.modify_congr hu rfl)

/-! ### The main loop -/

/-- Where nothing has finished the end of a batch or round leads to the main loop. -/
theorem leads_reaped_nil {f : Frame} (hf : f = .batch [] ∨ ∃ ids, f = .round ids [])
    (hnone : m.registry.finished = []) :
    Leads w o ⟨m, [f, .loop 0], .done⟩ [] ⟨m, [.loop 0], .done⟩ := by
  have hsame : ({ m with registry := m.registry.reap.1 } : Machine σ) = m := by
    refine congrArg (fun registry => { m with registry }) ?_
    show ({ m.registry with finished := [] } : Registry) = m.registry
    rw [← hnone]
  have hreap : step w o ⟨m, [f, .loop 0], .done⟩ = ⟨m, [.loop 0], .bubble []⟩ := by
    have h : step w o ⟨m, [f, .loop 0], .done⟩ =
        ⟨{ m with registry := m.registry.reap.1 }, [.loop 0], .bubble m.registry.finished⟩ := by
      rcases hf with rfl | ⟨ids, rfl⟩ <;> rfl
    rw [h, hsame, hnone]
  exact .head rfl rfl hreap (.one rfl rfl rfl)

/-- What has finished in a batch or round is told of in the next round. -/
theorem leads_reaped {f : Frame} (hf : f = .batch [] ∨ ∃ ids, f = .round ids [])
    (hsome : m.registry.finished ≠ []) (within : ¬ o.stepLimit < m.steps) :
    ∃ m', m'.registry = { m.registry with finished := [] } ∧
    m'.steps = m.steps ∧ m'.outer = m.outer ∧
      Leads w o ⟨m, [f, .loop 0], .done⟩ []
        ⟨m', [.round m.registry.finished m.registry.pending, .loop 0], .done⟩ := by
  generalize hm₁ : ({ m with registry := m.registry.reap.1 } : Machine σ) = m₁
  have hreg : m₁.registry = { m.registry with finished := [] } := by rw [← hm₁]; rfl
  have hreap : step w o ⟨m, [f, .loop 0], .done⟩ =
      ⟨m₁, [.loop 0], .bubble m.registry.finished⟩ := by
    rw [← hm₁]
    rcases hf with rfl | ⟨ids, rfl⟩ <;> rfl
  have hpending : m₁.registry.pending = m.registry.pending := by rw [hreg]
  obtain ⟨_, ⟨trace, hbubble⟩ | ⟨untraceable, hbubble⟩⟩ :=
    (bubble_cases o m₁ [.loop 0] m.registry.finished).resolve_left fun h => hsome h.1
  · rw [hpending] at hbubble
    exact ⟨{ m₁ with trace }, hreg, by rw [← hm₁], by rw [← hm₁],
      .head rfl rfl hreap (.one rfl rfl hbubble)⟩
  · refine ⟨m₁, hreg, by rw [← hm₁], by rw [← hm₁], .head rfl rfl hreap (.head rfl rfl hbubble ?_)⟩
    refine .skip ⟨untraceable, hm₁ ▸ within, unwritten_abort ..⟩ ?_ (.refl _)
    rfl

/-- The main loop picks the next batch, which is counted. -/
theorem leads_looking (hroot : m.registry.isDone 0 = false) (hsteps : m.steps < o.stepLimit)
    (hbatch : selectReadyBatch m.registry.pendingTasks ≠ []) :
    ∃ m', m'.registry = m.registry ∧ m'.steps = m.steps + 1 ∧ m'.outer = m.outer ∧
      Leads w o ⟨m, [.loop 0], .done⟩ []
        ⟨m', [.batch ((selectReadyBatch m.registry.pendingTasks).map (·.id)), .loop 0], .done⟩ := by
  have hunsettled : settled o m 0 = false := by simp [settled, hroot]
  rcases continueLoop_of_ready hunsettled hsteps hbatch with ⟨trace, hs⟩ | ⟨untraceable, hs⟩
  · exact ⟨{ m.counted with trace }, rfl, rfl, rfl, .one rfl rfl hs⟩
  · refine ⟨m.counted, rfl, rfl, rfl, .head rfl rfl hs ?_⟩
    refine .skip ⟨untraceable, Nat.not_lt.mpr hsteps, unwritten_abort ..⟩ ?_ (.refl _)
    rfl

end Config

end Rehearsal
