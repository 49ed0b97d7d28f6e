import Mathlib.Tactic.IntervalCases
import Rehearsal.Proofs.Engine.Awaiting
import Rehearsal.Proofs.Engine.Collecting

/-!
# What joins and gathers hand over

A join or gather waits for a structure of tasks, which rounds settle piece by piece. Rounds do not
show: at every moment the structure is what the tasks that are over make of the one that was asked
for. So when its task goes on with a value, all of them are over, and the value has their results in
the shape and the order of the request.
-/
namespace Rehearsal

variable {σ : Type} {begun : Nat → Prop} {t : Nat} {u : Task} {w : World σ} {o : RunOptions}

/-! ### Settled structures -/

def Registry.Gathered (r : Registry) (shape : Pending) (v : Value) : Prop :=
  (r.settleFinished shape).waitingOn = [] ∧ v = (r.settleFinished shape).unwrap

/-- Behind the interruption a task waits for `shape`, of which pieces may be settled. -/
structure Registry.Gathers (shape : Pending) (r : Registry) (i : Interruption) : Prop where
  kind : i.kind = .join ∨ i.kind = .all
  settles : r.settleFinished i.pending = r.settleFinished shape
  answer : ∀ a, i.answer = some a → ∃ v, a = .value v ∧ r.Gathered shape v

namespace Registry

variable {r r' : Registry} {shape : Pending} {v : Value} {i : Interruption}

theorem Gathered.keeps (h : r.Gathered shape v) (hk : r.Keeps r') : r'.Gathered shape v := by
  unfold Gathered
  rw [hk.settled h.1]
  exact h

theorem Gathers.keeps (h : r.Gathers shape i) (hk : r.Keeps r') : r'.Gathers shape i where
  kind := h.kind
  settles := by rw [← hk.settleFinished i.pending, h.settles, hk.settleFinished]
  answer := by
    intro a ha
    obtain ⟨v, rfl, hv⟩ := h.answer a ha
    exact ⟨v, rfl, hv.keeps hk⟩

/-- A round settles a piece, the whole, or nothing. -/
theorem Gathers.settle {i' : Interruption} {ids : List Nat} {ok : Bool} (h : r.Gathers shape i)
    (hn : i.answer = none) (he : r.settle t i ids = .ok (ok, i', r')) : r.Gathers shape i' := by
  have hsame : r.settleFinished (r.settleFinished i.pending) = r.settleFinished shape := by
    rw [(Keeps.refl r).settleFinished, h.settles]
  rw [settle_gathering h.kind] at he
  split at he
  · split at he
    · rename_i hnil
      cases he
      refine ⟨h.kind, hsame, ?_⟩
      rintro a ⟨⟩
      rw [h.settles] at hnil ⊢
      exact ⟨_, rfl, List.isEmpty_iff.mp hnil, rfl⟩
    · cases he
      refine ⟨h.kind, hsame, fun a ha => ?_⟩
      have hnone : i.answer = some a := ha
      rw [hn] at hnone
      cases hnone
  · cases he
    exact h

end Registry

namespace Config

variable {c : Config σ} {shape : Pending} {n : Nat} {s : Signal} {f : Frame} {below : List Frame}

theorem lasting_gathers (shape : Pending) : Lasting (Registry.Gathers shape) where
  keeps := fun hk h => h.keeps hk
  settles := fun hn he h => h.settle hn he

/-! ### How a task goes on with what its effect has come to -/

/-- The effect of the task that the top frame drives is answered by a value: the task goes on with
it. -/
theorem GoesOn.of_advance (hstack : c.stack = f :: below) (hf : f.runner? = some t) {v : Value}
    (hcontrol : c.control = .answer (.advance v)) (h : GoesOn w o t s n c) : s = .send v := by
  obtain ⟨m, stack, control⟩ := c
  obtain rfl : stack = f :: below := hstack
  obtain rfl : control = .answer (.advance v) := hcontrol
  cases f with
  | driving i =>
    obtain rfl : i = t := Option.some.inj hf
    exact (h.now (reply?_of_resumption (resumption?_eq_some.mpr ⟨_, .answered ..⟩))).2
  | member i =>
    obtain rfl : i = t := Option.some.inj hf
    obtain ⟨_, n', _, hnext⟩ := h.step rfl
    exact (hnext.now (reply?_complete rfl)).2
  | _ => cases hf

/-- The effect of the task that the top frame drives raises: the exception is thrown into the task.
-/
theorem GoesOn.of_raised (hstack : c.stack = f :: below) (hf : f.runner? = some t) {e : Exn}
    (hcontrol : c.control = .raised e) (h : GoesOn w o t s n c) : s = .throw e := by
  obtain ⟨m, stack, control⟩ := c
  obtain rfl : stack = f :: below := hstack
  obtain rfl : control = .raised e := hcontrol
  cases f with
  | driving i =>
    obtain rfl : i = t := Option.some.inj hf
    exact (h.now (reply?_of_resumption (resumption?_eq_some.mpr ⟨_, .thrown ..⟩))).2
  | member i =>
    obtain rfl : i = t := Option.some.inj hf
    obtain ⟨_, n', _, hnext⟩ := h.step rfl
    exact (hnext.now (reply?_fail rfl)).2
  | _ => cases hf

/-- A task whose effect blocks it sleeps from the next step on, with its coroutine as it is. -/
theorem sleeps_of_block (w : World σ) (o : RunOptions)
    {P : Registry → Interruption → Prop} (hP : Lasting P)
    (hc : c.Sound begun) (hopen : c.Open) (hstack : c.stack = f :: below) (hf : f.runner? = some t)
    {i : Interruption} (hcontrol : c.control = .answer (.block i)) (hi : P c.machine.registry i) :
    ∃ u, c.machine.registry.get? t = some u ∧ (c.step w o).Sleeps P t u.coroutine i := by
  have hkeeps := keeps_step w o hc hopen
  obtain ⟨m, stack, control⟩ := c
  obtain rfl : stack = f :: below := hstack
  obtain rfl : control = .answer (.block i) := hcontrol
  cases hc with
  | answered core nested stands =>
    obtain ⟨awaits, _⟩ := stands
    have ht : t ∈ runners (f :: below) := List.mem_filterMap.mpr ⟨f, List.mem_cons_self .., hf⟩
    obtain ⟨u, hu, _, _⟩ := core.runner ht
    have hstep : (step w o ⟨m, f :: below, .answer (.block i)⟩).machine =
        (m.modify t fun task => { task with running := false }).suspend o t i := by
      cases f with
      | driving x =>
        obtain rfl : x = t := Option.some.inj hf
        rfl
      | member x =>
        obtain rfl : x = t := Option.some.inj hf
        rfl
      | _ => cases hf
    have hu' : (step w o ⟨m, f :: below, .answer (.block i)⟩).machine.registry.get? t =
        some (Task.block { u with running := false } i) := by
      rw [hstep, Machine.registry_suspend]
      exact Registry.get?_modify_of_eq_some (·.block i) (Registry.get?_modify_of_eq_some _ hu)
    refine ⟨u, hu, ⟨_, hu', rfl, rfl⟩, fun hk => ?_, hP.keeps hkeeps hi, Or.inl awaits.unanswered⟩
    have hshape := awaits.shape
    rw [hk] at hshape
    exact hshape

/-- What the interpretation of a join or gather of `shape` leads to: it is settled, or waited for,
or fails. -/
inductive Offers (shape : Pending) (r : Registry) : Control → Prop
  | gives {v : Value} (h : r.Gathered shape v) : Offers shape r (.answer (.advance v))
  | waits {i : Interruption} (h : r.Gathers shape i) : Offers shape r (.answer (.block i))
  | fails {control : Control} (f : Failure) (h : control = f.control) : Offers shape r control

/-- Nobody goes on with a value after a failure. -/
theorem GoesOn.ne_send_of_failure (hstack : c.stack = f :: below)
    (hf : f.runner? = some t) {failure : Failure}
    (hcontrol : c.control = failure.control) (h : GoesOn w o t s n c) (v : Value) :
    s ≠ .send v := by
  have hlive := h.live (Nat.zero_le n)
  cases failure with
  | harness e => exact (hlive _ hcontrol).elim
  | exn e =>
    unfold Failure.control at hcontrol
    dsimp only at hcontrol
    split at hcontrol
    · rw [h.of_raised hstack hf hcontrol]
      exact nofun
    · exact (hlive _ hcontrol).elim

/-- Whoever goes on with a value after that has what the structure has come to. -/
theorem Offers.gathered {v : Value}
    (hoffers : Offers shape c.machine.registry c.control) (hc : c.Sound begun)
    (hopen : c.Open) (hstack : c.stack = f :: below) (hf : f.runner? = some t)
    (h : GoesOn w o t (.send v) n c) : (run w o n c).machine.registry.Gathered shape v := by
  generalize hcontrol : c.control = control at hoffers
  cases hoffers with
  | gives hv =>
    cases h.of_advance hstack hf hcontrol
    exact hv.keeps (keeps_run w o hc hopen (Nat.zero_le n))
  | fails failure he => exact (h.ne_send_of_failure hstack hf (hcontrol.trans he) v rfl).elim
  | waits hi =>
    obtain ⟨u, _, hsleeps⟩ :=
      sleeps_of_block w o (lasting_gathers shape) hc hopen hstack hf hcontrol hi
    have hnone : c.reply? t = none := by simp [reply?, resumption?, hcontrol]
    obtain ⟨hf, n', rfl, hnext⟩ := h.step hnone
    have hc' := sound_step w o hc
    have hopen' := open_step w o hc hopen
    obtain ⟨k, i', rfl, _, _, hasleep, hwakes⟩ :=
      hsleeps.until_reply (lasting_gathers shape) hc' hopen' hnext
    rw [run_one w o hf]
    rcases hwakes with ⟨_, a, ha, hs⟩ | ⟨_, e, _, _, _, _, hs⟩
    · obtain ⟨v', rfl, hv⟩ := hasleep.holds.answer a ha
      cases hs
      exact hv.keeps (keeps_run w o hc' hopen' (Nat.le_succ k))
    · cases hs

/-! ### Joins -/

theorem offers_settled (r : Registry) (shape : Pending) {kind : InterruptionKind}
    (hk : kind = .join ∨ kind = .all) (deps : List Nat) :
    Offers shape r (.answer (.block ⟨kind, r.settleFinished shape, deps, none⟩)) :=
  .waits ⟨hk, (Registry.Keeps.refl r).settleFinished shape, nofun⟩

theorem offers_interpretJoin (m : Machine σ) (targets : Targets) :
    (m.interpretJoin targets).frames = [] ∧
      Offers (.ofTargets targets) (m.interpretJoin targets).machine.registry
        (m.interpretJoin targets).control := by
  unfold Machine.interpretJoin
  split
  · rename_i id _
    exact ⟨rfl, .fails (.exn (m.unknownTask id)) rfl⟩
  · dsimp only
    split
    · rename_i hnil
      exact ⟨rfl, .gives ⟨List.isEmpty_iff.mp hnil, rfl⟩⟩
    · exact ⟨rfl, offers_settled _ _ (Or.inl rfl) _⟩

/-- Whoever goes on with a value after a join has what its targets have come to. -/
theorem gathered_of_join {targets : Targets} {b : Bool} {v : Value}
    (hc : c.Sound begun) (hopen : c.Open)
    (hcontrol : c.control = .interpret t (.effect (.join targets)) b)
    (h : GoesOn w o t (.send v) n c) :
    (run w o n c).machine.registry.Gathered (.ofTargets targets) v := by
  obtain ⟨f, below, hstack, hf⟩ := exists_frame_of_interpret hc hcontrol
  obtain ⟨hfinal, n, rfl, hnext⟩ := h.step (by simp [reply?, resumption?, hcontrol])
  rw [run_one w o hfinal]
  have hstep :
      c.step w o = ofOutcome c.stack (c.machine.interpret w o t (.effect (.join targets)) b) := by
    unfold step
    rw [hcontrol]
  have hoffers : (c.step w o).stack = c.stack ∧
      Offers (.ofTargets targets) (c.step w o).machine.registry (c.step w o).control := by
    rw [hstep]
    rcases c.machine.interpret_effect_cases w o t (.join targets) b with ⟨f, he⟩ | he
    · rw [he]
      exact ⟨rfl, .fails f rfl⟩
    · rw [he]
      obtain ⟨hframes, hoffers⟩ := offers_interpretJoin c.machine.counted targets
      refine ⟨?_, hoffers⟩
      show Outcome.frames (Machine.interpretJoin _ targets) ++ c.stack = c.stack
      rw [hframes]
      rfl
  exact hoffers.2.gathered (sound_step w o hc) (open_step w o hc hopen)
    (hoffers.1.trans hstack) hf hnext

/-! ### Gathers -/

theorem offers_concludeComposite (m : Machine σ) {k : Composite} (hrace : k.isRace = false) :
    (m.concludeComposite k).frames = [] ∧
      Offers k.shape (m.concludeComposite k).machine.registry (m.concludeComposite k).control := by
  rw [Machine.concludeComposite_eq, hrace]
  split
  · exact ⟨rfl, .fails (.exn _) rfl⟩
  · simp only [Bool.false_and, Bool.false_eq_true, if_false]
    split
    · rename_i hnil
      exact ⟨rfl, .gives ⟨List.isEmpty_iff.mp hnil, rfl⟩⟩
    · exact ⟨rfl, offers_settled _ _ (Or.inr rfl) _⟩

/-- A gather that is concluded has come to something, or waits for it, or fails. -/
theorem offers_of_concluded {m : Machine σ} {k : Composite} {stack : List Frame}
    (hrace : k.isRace = false)
    (h : c = ofOutcome stack (m.concludeComposite k)) :
    c.stack = stack ∧ Offers k.shape c.machine.registry c.control := by
  obtain ⟨hframes, hoffers⟩ := offers_concludeComposite m hrace
  subst h
  refine ⟨?_, hoffers⟩
  show (m.concludeComposite k).frames ++ stack = stack
  rw [hframes]
  rfl

/-- Whoever runs below goes on with nothing while a frame stands above that drives nobody. -/
theorem unreplied_of_tops {P : Frame → Prop} (hc : c.Sound begun) (hP : ∀ t, ¬ P (.driving t))
    {under : List Frame} (h : Tops P under c.stack) (ht : t ∈ runners under) :
    c.reply? t = none := by
  have hquiet := unresumed_of_tops hc hP h ht
  have haside : t ∈ runners c.stack := h.runners_subset ht
  obtain ⟨m, stack, control⟩ := c
  cases hc with
  | completing _ core _ _ _ _ =>
    refine if_neg ?_
    rintro rfl
    exact core.aside _ rfl haside
  | failing _ core _ _ _ _ =>
    refine if_neg ?_
    rintro rfl
    exact core.aside _ rfl haside
  | _ => exact hquiet

/-- A race or gather that has begun is concluded before its task goes on with a value. -/
theorem exists_concluded {race : Bool} {members : Members} {b : Bool}
    {v : Value} (hc : c.Sound begun)
    (hcontrol : c.control = .interpret t (.effect (.ofMembers race members)) b)
    (h : GoesOn w o t (.send v) n c) :
    ∃ i ≤ n, Concluded w o c t race members i := by
  obtain ⟨f, below, hstack, hf⟩ := exists_frame_of_interpret hc hcontrol
  have ht : t ∈ runners c.stack := by
    rw [hstack]
    exact List.mem_filterMap.mpr ⟨f, List.mem_cons_self .., hf⟩
  obtain ⟨hfinal, n, rfl, hnext⟩ := h.step (by simp [reply?, resumption?, hcontrol])
  have hstands : ∀ j ≤ n, Stands w o c t race members (j + 1) ∨
      ∃ i ≤ j + 1, Concluded w o c t race members i := by
    intro j
    induction j with
    | zero =>
      intro _
      refine (stands_first hc hcontrol fun failure hfails => ?_).imp_right fun h =>
        ⟨1, Nat.le_refl 1, h⟩
      rw [hfails] at hnext
      have hfailed :
        (⟨c.machine.counted, c.stack, failure.control⟩ : Config σ).stack = f :: below := hstack
      exact hnext.ne_send_of_failure hfailed hf rfl v rfl
    | succ j ih =>
      intro hj
      rcases ih (Nat.le_of_succ_le hj) with hstands | ⟨i, hi, hends⟩
      · exact (hstands.step hc (h.live (Nat.le_succ_of_le hj))).imp_right fun h =>
          ⟨_, Nat.le_refl _, h⟩
      · exact Or.inr ⟨i, Nat.le_succ_of_le hi, hends⟩
  refine (hstands n (Nat.le_refl n)).resolve_left ?_
  rintro ⟨k, _, htops⟩
  obtain ⟨_, _, hs⟩ := sound_run w o hc (n + 1)
  have hreply := h.reply
  rw [unreplied_of_tops hs (by rintro i ⟨⟩) htops ht] at hreply
  cases hreply

end Config

/-! ### Shapes -/

/-- A composite that waits for nothing has the results of its placeholders. -/
theorem Registry.unwrap_shape {r : Registry} {k : Composite}
    (hn : (r.settleFinished k.shape).waitingOn = []) :
    (r.settleFinished k.shape).unwrap =
      if k.keyed then .dict ⟨false, k.made.map fun e => (e.1, r.resultOf e.2)⟩
      else .list (k.made.map fun e => r.resultOf e.2) := by
  have hvalue : ∀ e ∈ k.made, (r.settleSlot (.task e.2)).slotValue = r.resultOf e.2 := by
    intro e he
    refine slotValue_settleSlot (isDone_of_settled hn ?_)
    rw [k.waitingOn_shape]
    exact List.mem_map_of_mem he
  unfold Composite.shape
  split
  · refine congrArg (fun entries => Value.dict ⟨false, entries⟩) ?_
    rw [List.map_map, List.map_map]
    exact List.map_congr_left fun e he => congrArg (e.1, ·) (hvalue e he)
  · refine congrArg Value.list ?_
    rw [List.map_map, List.map_map, List.map_map]
    exact List.map_congr_left hvalue

namespace Config.Collects

variable {c : Config σ} {n : Nat} {members : Members} {k : Composite}

/-- What the composite has come to has the shape of the request. -/
theorem results (h : Collects w o c t false members n k) (hrest : k.rest = [])
    {r : Registry} {v : Value}
    (hv : r.Gathered k.shape v) : v = members.results r (k.made.map (·.2)) := by
  rw [hv.2, Registry.unwrap_shape hv.1, h.keyed]
  cases members with
  | listed xs => simp [Machine.isKeyed, Members.results, List.map_map, Function.comp_def]
  | keyed m =>
    obtain ⟨seen, hitems, hseen⟩ := h.seen
    rw [hrest, List.append_nil] at hitems
    have hkeys : m.entries.map (·.1) = k.made.map (·.1) := by
      rw [← List.forall₂_eq_eq_eq, List.forall₂_map_left_iff, List.forall₂_map_right_iff]
      have hm : m.entries = seen := hitems
      rw [hm]
      exact hseen.imp fun _ _ h => h.1
    simp only [Machine.isKeyed, if_true, Members.results, hkeys, List.map_map, List.zip_map']
    rfl

end Config.Collects

/-! ### The results of failed tasks -/

def Registry.ErrorsAreResults (r : Registry) : Prop :=
  ∀ d u, r.get? d = some u → u.done = true → ∀ e, u.error = some e → u.result = .error e

namespace Config

variable {c : Config σ}

/-- Of the tasks that failed before, only those end that were held for their children. -/
theorem holds_of_finalizes (hc : c.Sound begun) (hu : c.machine.registry.get? t = some u) {e : Exn}
    (he : u.error = some e) (h : c.Finalizes w o t) :
    c.control = .runTask t ∧
      ∃ i, u.interruption = some i ∧ i.kind = .children ∧ i.answer = some (.failed e) := by
  obtain ⟨v, hv, h⟩ := h
  rw [hu, Option.some.injEq] at hv
  subst hv
  obtain ⟨m, stack, control⟩ := c
  have hfree : ∀ {v}, m.registry.get? t = some v → v.error = none → False := by
    intro v hv hn
    rw [show m.registry.get? t = some u from hu, Option.some.injEq] at hv
    subst hv
    rw [hn] at he
    cases he
  cases hc with
  | completing _ _ _ task free _ =>
    obtain ⟨rfl, _⟩ := h
    exact (hfree task free.error).elim
  | failing _ _ _ task free _ =>
    obtain ⟨rfl, _⟩ := h
    exact (hfree task free.error).elim
  | starting _ _ task fresh _ =>
    obtain ⟨rfl, _⟩ := h
    exact (hfree task fresh.error).elim
  | selected _ _ task ready =>
    obtain ⟨rfl, i, hi, hk, hans⟩ := h
    rcases ready with ⟨fresh, _⟩ | ⟨j, a, ready⟩
    · exact (hfree task fresh.error).elim
    · rw [show m.registry.get? _ = some u from hu, Option.some.injEq] at task
      subst task
      obtain rfl : i = j := Option.some.inj (hi.symm.trans ready.interruption)
      rcases ready.holds hk with ⟨v, _, hn⟩ | ⟨e', rfl, he'⟩
      · exact (hfree hu hn).elim
      · rw [he, Option.some.injEq] at he'
        exact ⟨rfl, i, hi, hk, he' ▸ ready.answer⟩
  | _ => exact h.elim

theorem errorsAreResults_step (w : World σ) (o : RunOptions) (hc : c.Sound begun) (hopen : c.Open)
    (h : c.machine.registry.ErrorsAreResults) : (c.step w o).machine.registry.ErrorsAreResults := by
  intro d u' hu' hd' e he'
  have hdone : (c.step w o).machine.registry.isDone d = true :=
    Registry.isDone_iff.mpr ⟨u', hu', hd'⟩
  rcases (amends_step w o c).errors hu' he' with ⟨u, hu, he⟩ | hfails
  · cases hd : u.done with
    | true =>
      obtain ⟨a, b, hflag⟩ := final_step w o hc hopen hu hd
      rw [hu', Option.some.injEq] at hflag
      exact hflag ▸ h d u hu hd e he
    | false =>
      obtain ⟨hcontrol, ⟨kind, pending, dependencies, answer⟩, hi, rfl, rfl⟩ :=
        holds_of_finalizes hc hu he ((isDone_step_iff w o hc hu hd).mp hdone)
      obtain ⟨m, stack, control⟩ := c
      obtain rfl : control = .runTask d := hcontrol
      have hget : m.get? d = some u := hu
      have hstep : step w o ⟨m, stack, .runTask d⟩ =
          halt ((({ m with handled := none } : Machine σ).modify d
            fun u => { u with interruption := none }).finalize d (.error e)) stack := by
        simp [step, runTask, hget, hi]
      rw [hstep] at hu'
      have hend := Machine.get?_finalize
        (m := ({ m with handled := none } : Machine σ).modify d fun u =>
          { u with interruption := none })
        (Registry.get?_modify_of_eq_some _ hu) (.error e)
      rw [Option.some.inj (hu'.symm.trans hend)]
      rfl
  · obtain ⟨m, stack, control⟩ := c
    obtain rfl : control = .fail d e := hfails
    cases hc with
    | failing _ core nested task free stopped =>
      obtain ⟨m', he, _⟩ := m.core_fail o core nested task free stopped e
      have hstep : step w o ⟨m, stack, .fail d e⟩ = ⟨m', stack, .propagate d e⟩ := by
        simp only [step, he]
      rw [hstep] at hu' hdone
      obtain ⟨v, hv, _, hresult⟩ :=
        Machine.get?_fail task free.error
          ((Machine.isDone_fail task free.done free.error he).mp hdone) he
      rw [Option.some.inj (hu'.symm.trans hv)]
      exact hresult

theorem errorsAreResults_run (w : World σ) (o : RunOptions) (hc : c.Sound begun) (hopen : c.Open)
    (h : c.machine.registry.ErrorsAreResults) (n : Nat) :
    (run w o n c).machine.registry.ErrorsAreResults := by
  induction n with
  | zero => exact h
  | succ n ih =>
    obtain ⟨_, _, hs⟩ := sound_run w o hc n
    rw [run_succ]
    split
    · exact ih
    · exact errorsAreResults_step w o hs (open_run w o hc hopen n) ih

/-- What joins and gathers hand over in the run from `c` on, and when. -/
structure DeliversResults (w : World σ) (o : RunOptions) (c : Config σ) : Prop where
  /-- A task that goes on with a value after a join goes on with the results of the targets in the
  shape of the join: all of them are over by then, and the results are final. -/
  joined : ∀ {k n t targets b v}, (run w o k c).control = .interpret t (.effect (.join targets)) b →
    GoesOn w o t (.send v) n (run w o k c) →
    (∀ m ∈ targets.markers, (run w o (k + n) c).machine.registry.isDone m.id = true) ∧
      ∀ j, k + n ≤ j → v = targets.results (run w o j c).machine.registry
  /-- After a gather it has the results of placeholders of its own, made one after the other, each
  of which was given the member in its place. -/
  gathered : ∀ {k n t members b v}, (run w o k c).control =
    .interpret t (.effect (.gather members)) b →
    GoesOn w o t (.send v) n (run w o k c) →
    ∃ placeholders : List Nat, placeholders.Pairwise (· < ·) ∧
      List.Forall₂ (Asks w o (run w o k c) t n) members.values placeholders ∧
      (∀ p ∈ placeholders, (run w o (k + n) c).machine.registry.isDone p = true) ∧
      ∀ j, k + n ≤ j → v = members.results (run w o j c).machine.registry placeholders
  /-- The result of a task that failed is its exception. -/
  failed : ∀ n, (run w o n c).machine.registry.ErrorsAreResults

end Config

/-- **Joins and gathers deliver exactly the results, in shape and order**, in every run and in
whatever order and however many rounds the tasks finish. -/
theorem joins_and_gathers_deliver (w : World σ) (o : RunOptions) (outer : σ)
    (name : String) (g : Nat) :
    (Config.launched outer name g).DeliversResults w o := by
  have hc := Config.sound_launched outer name g
  have hopen := Config.open_of_sound hc nofun
  have hkeeps : ∀ {i j}, i ≤ j →
      (Config.run w o i (Config.launched outer name g)).machine.registry.Keeps
      (Config.run w o j (Config.launched outer name g)).machine.registry :=
        Config.keeps_run w o hc hopen
  constructor
  case joined =>
    intro k n t targets b v hcontrol hgoes
    obtain ⟨_, _, hs⟩ := Config.sound_run w o hc k
    have hv := Config.gathered_of_join hs (Config.open_run w o hc hopen k) hcontrol hgoes
    rw [← Config.run_add] at hv
    refine ⟨fun m hm => Registry.isDone_of_settled hv.1 ?_, fun j hj => ?_⟩
    · rw [Pending.waitingOn_ofTargets]
      exact List.mem_map_of_mem hm
    · obtain ⟨hn, rfl⟩ := hv.keeps (hkeeps hj)
      exact Registry.unwrap_ofTargets hn
  case gathered =>
    intro k n t members b v hcontrol hgoes
    obtain ⟨_, _, hs⟩ := Config.sound_run w o hc k
    have hgather : (Config.run w o k (Config.launched outer name g)).control =
      .interpret t (.effect (.ofMembers false members)) b := hcontrol
    obtain ⟨i, hi, kc, m, hcollects, hrest, hconcluded⟩ := Config.exists_concluded hs hgather hgoes
    obtain ⟨hstack, hoffers⟩ := Config.offers_of_concluded hcollects.race hconcluded
    obtain ⟨f, below, htop, hf⟩ := Config.exists_frame_of_interpret hs hcontrol
    obtain ⟨_, _, hsi⟩ := Config.sound_run w o hs i
    have hopeni := Config.open_run w o hs (Config.open_run w o hc hopen k) i
    have hv := hoffers.gathered hsi hopeni (hstack.trans htop) hf (hgoes.later hi)
    rw [← Config.run_add, Nat.add_sub_cancel' hi, ← Config.run_add] at hv
    refine ⟨_, hcollects.sorted, (hcollects.mono hi).asked hrest,
      fun p hp => Registry.isDone_of_settled hv.1 ?_,
      fun j hj => hcollects.results hrest (hv.keeps (hkeeps hj))⟩
    rw [kc.waitingOn_shape]
    exact hp
  case failed =>
    refine Config.errorsAreResults_run w o hc hopen fun d u hu _ e he => ?_
    rw [Config.hale_launched outer name g hu] at he
    cases he

/-- The root joins a task that it has spawned, twice over, and then gathers two calls of which the
second finishes first. -/
def Playbook.collecting : Playbook where
  responses
    | 0 => [.yielded (.effect (.fork .null [] [] true)),
        .yielded (.effect (.join (.listed false [⟨1, "", true⟩, ⟨1, "", true⟩]))),
        .yielded (.effect (.gather (.keyed ⟨false, [(.text "late", .effect (.call .null [] [])),
          (.text "soon", .effect (.call .null [] []))]⟩)))]
    | _ => []
  plans :=
    [⟨false, .int 10, none, .tick 1⟩, ⟨false, .int 20, none, .tick 5⟩,
      ⟨false, .int 30, none, .tick 1⟩]

theorem collecting_delivers :
    (Playbook.collecting.played 15).reply? 0 = some (.send (.list [.int 10, .int 10])) ∧
      (∀ j, 15 ≤ j → (Playbook.collecting.played j).machine.registry.resultOf 1 = .int 10) ∧
      (Playbook.collecting.played 59).reply? 0 =
        some (.send (.dict ⟨false, [(.text "late", .int 20), (.text "soon", .int 30)]⟩)) ∧
      ∃ p q, p < q ∧ ∀ j, 59 ≤ j →
      (Playbook.collecting.played j).machine.registry.resultOf p = .int 20 ∧
        (Playbook.collecting.played j).machine.registry.resultOf q = .int 30 := by
  have h := joins_and_gathers_deliver Playbook.world .default Playbook.collecting "root" 0
  have hjoin : Config.GoesOn Playbook.world .default 0 (.send (.list [.int 10, .int 10])) 12
      (Playbook.collecting.played 3) := by
    refine ⟨rfl, fun j hj => ?_⟩
    interval_cases j <;> rfl
  have hgather : Config.GoesOn Playbook.world .default 0
      (.send (.dict ⟨false, [(.text "late", .int 20), (.text "soon", .int 30)]⟩)) 43
      (Playbook.collecting.played 16) := by
    refine ⟨rfl, fun j hj => ?_⟩
    interval_cases j <;> rfl
  obtain ⟨_, hlist⟩ := h.joined (k := 3) rfl hjoin
  obtain ⟨placeholders, hsorted, hasked, _, hdict⟩ := h.gathered (k := 16) rfl hgather
  refine ⟨rfl, fun j hj => ?_, rfl, ?_⟩
  · exact (List.cons.inj (Value.list.inj (hlist j hj))).1.symm
  · obtain ⟨p, rest, _, hrest, rfl⟩ := List.forall₂_cons_left_iff.mp hasked
    obtain ⟨q, _, _, hnil, rfl⟩ := List.forall₂_cons_left_iff.mp hrest
    obtain rfl := List.forall₂_nil_left_iff.mp hnil
    refine ⟨p, q, (List.pairwise_cons.mp hsorted).1 q (List.mem_cons_self ..), fun j hj => ?_⟩
    have he := hdict j hj
    simp only [Members.results, List.map_cons, List.map_nil, List.zip_cons_cons, List.zip_nil_right,
      Value.dict.injEq, Mapping.mk.injEq, List.cons.injEq, Prod.mk.injEq, true_and, and_true] at he
    exact ⟨he.1.symm, he.2.symm⟩

end Rehearsal
