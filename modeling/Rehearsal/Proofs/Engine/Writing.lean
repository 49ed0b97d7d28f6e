import Rehearsal.Proofs.Engine.Moves
import Rehearsal.Proofs.Engine.Starting

/-!
# What a step writes

A line is written when a task is blocked, when what has finished is bubbled, when a batch is picked,
and when the error of a detached task is swallowed. Every other step is hushed: it writes nothing,
and by it no task comes to be held by an interruption.
-/
namespace Rehearsal

variable {σ : Type}

namespace Machine

structure Hushed (m m' : Machine σ) : Prop where
  trace : m'.trace = m.trace
  free : ∀ {t u}, m.registry.get? t = some u → u.interruption = none →
    ∃ u', m'.registry.get? t = some u' ∧ u'.interruption = none

namespace Hushed

variable {m m' m'' : Machine σ}

protected theorem refl (m : Machine σ) : m.Hushed m := ⟨rfl, fun hu hn => ⟨_, hu, hn⟩⟩

protected theorem trans (h : m.Hushed m') (h' : m'.Hushed m'') : m.Hushed m'' := by
  refine ⟨h'.trace.trans h.trace, fun hu hn => ?_⟩
  obtain ⟨u', hu', hn'⟩ := h.free hu hn
  exact h'.free hu' hn'

theorem modify (m : Machine σ) (t : Nat) {f : Task → Task}
    (hf : ∀ u : Task, u.interruption = none → (f u).interruption = none) :
    m.Hushed (m.modify t f) := by
  refine ⟨rfl, fun {i u} hu hn => ?_⟩
  by_cases hi : i = t
  · subst hi
    exact ⟨_, Registry.get?_modify_of_eq_some f hu, hf u hn⟩
  · exact ⟨u, (Registry.get?_modify_ne hi).trans hu, hn⟩

theorem flagged {r : Registry} {gone : Nat → Prop} (h : Registry.Flagged m.registry r gone) :
    m.Hushed { m with registry := r } := by
  refine ⟨rfl, fun hu hn => ?_⟩
  obtain ⟨_, _, hu', _⟩ := h.eq_some hu
  exact ⟨_, hu', hn⟩

theorem finalize (m : Machine σ) (t : Nat) (v : Value) : m.Hushed (m.finalize t v) := by
  refine ⟨rfl, fun {i u} hu hn => ?_⟩
  have hget : (m.finalize t v).registry.get? i = (m.registry.modify t (·.finish v)).get? i :=
    Registry.get?_retire ..
  rw [hget]
  exact (modify m t (f := (·.finish v)) fun _ _ => rfl).free hu hn

/-- What the world has turned to is not written. -/
theorem of_registry_eq (htrace : m'.trace = m.trace) (h : m'.registry = m.registry) : m.Hushed m' :=
  ⟨htrace, fun hu hn => ⟨_, h ▸ hu, hn⟩⟩

/-- A step that works on no task, and writes nothing. -/
theorem of_amends {l : Licence} (htrace : m'.trace = m.trace) (h : m.registry.Amends l m'.registry)
    (hn : ∀ t < m.registry.size, ¬ l.works t) : m.Hushed m' := by
  refine ⟨htrace, fun hu hfree => ?_⟩
  obtain ⟨u', hu', hamended⟩ := h.kept hu
  exact ⟨u', hu', (hamended.spared (hn _ (Registry.get?_eq_some_lt hu))).interruption.trans hfree⟩

end Hushed

/-! ### Interpretation -/

section Interpretation

variable (m : Machine σ) (w : World σ) (t : Nat)

theorem trace_produce (plan : CallPlan) (call : Call) :
    (m.produce w plan call).2.trace = m.trace := by
  unfold produce
  split
  · rfl
  · split <;> rfl

theorem trace_interpretCall (call : Call) : (m.interpretCall w t call).machine.trace = m.trace := by
  unfold interpretCall
  generalize w.plan m.view call false m.outer = planned
  obtain ⟨answer, s⟩ := planned
  cases answer with
  | error f => rfl
  | ok plan =>
    dsimp only
    split
    · have h := trace_produce { m with outer := s } w plan call
      generalize produce w { m with outer := s } plan call = made at h
      obtain ⟨value, m'⟩ := made
      cases value with
      | error e => exact h
      | ok v =>
        refine Eq.trans ?_ h
        cases v <;> rfl
    · rfl

theorem trace_interpretFork (call : Call) (detached : Bool) :
    (m.interpretFork w t call detached).machine.trace = m.trace := by
  unfold interpretFork
  split
  · rfl
  · dsimp only
    split <;> rfl

theorem trace_interpretJoin (targets : Targets) :
    (m.interpretJoin targets).machine.trace = m.trace := by
  unfold interpretJoin
  split
  · rfl
  · dsimp only
    split <;> rfl

theorem trace_continueComposite (k : Composite) :
    (m.continueComposite k).machine.trace = m.trace := by
  unfold continueComposite
  split
  · rw [concludeComposite_eq]
    split
    · rfl
    · dsimp only
      split
      · rfl
      · split <;> rfl
  · rfl

theorem trace_interpretExternal (e : Effect) (b : Bool) :
    (m.interpretExternal w t e b).machine.trace = m.trace := by
  unfold interpretExternal
  split
  · rfl
  · dsimp only
    split <;> rfl

theorem trace_interpretEffect (e : Effect) (b : Bool) :
    (m.interpretEffect w t e b).machine.trace = m.trace := by
  unfold interpretEffect
  split
  · exact m.trace_interpretCall w t _
  · exact m.trace_interpretFork w t _ _
  · exact m.trace_interpretJoin _
  · exact m.trace_continueComposite _
  · exact m.trace_continueComposite _
  · unfold interpretCancel
    split <;> rfl
  · rfl
  · unfold interpretCancelled
    split <;> rfl
  · rfl
  · exact m.trace_interpretExternal w t _ b

theorem trace_interpret (o : RunOptions) (effect : Value) (b : Bool) :
    (m.interpret w o t effect b).machine.trace = m.trace := by
  rcases m.interpret_cases w o t effect b with ⟨f, heq⟩ | ⟨g, _, heq⟩ | ⟨e, _, heq⟩
  · rw [heq]
    rfl
  · rw [heq]
    rfl
  · rw [heq]
    exact m.counted.trace_interpretEffect w t e b

end Interpretation

/-! ### Blocking -/

inductive Blocks (o : RunOptions) (m : Machine σ) : Machine σ → Prop
  | nothing {m' : Machine σ} (h : m.Hushed m') : Blocks o m m'
  | suspends {m' : Machine σ} (h : m.Hushed m') (t : Nat) (i : Interruption) :
      Blocks o m (m'.suspend o t i)

variable {m m' : Machine σ} {o : RunOptions}

theorem Blocks.after {m'' : Machine σ} (h : m.Hushed m') (h' : m'.Blocks o m'') :
    m.Blocks o m'' := by
  cases h' with
  | nothing h' => exact .nothing (h.trans h')
  | suspends h' t i => exact .suspends (h.trans h') t i

theorem blocks_wrapUp (o : RunOptions) (m : Machine σ) (t : Nat) (held : Pending) (v : Value) :
    m.Blocks o (m.wrapUp o t held v) := by
  have hchildren : ∀ live, m.Hushed (m.modify t fun task => { task with children := live }) :=
    fun _ => .modify m t fun _ => id
  unfold wrapUp holdForChildren
  cases hu : m.get? t with
  | none => exact .nothing (.finalize m t v)
  | some u =>
    dsimp only
    cases hlive : (u.children.filter fun c => !m.registry.isDone c).isEmpty with
    | true =>
      rw [if_pos rfl]
      dsimp only
      exact .nothing ((hchildren _).trans (.finalize _ t v))
    | false =>
      rw [if_neg Bool.false_ne_true]
      dsimp only
      refine .suspends ?_ t _
      exact (hchildren _).trans (.modify _ t fun _ => id)

theorem blocks_complete (o : RunOptions) (m : Machine σ) (t : Nat) (v : Value) :
    m.Blocks o (m.complete o t v) := m.blocks_wrapUp o t (.returned v) v

theorem blocks_fail {t : Nat} {e : Exn} (h : m.fail o t e = some m') : m.Blocks o m' := by
  cases hu : m.get? t with
  | none =>
    simp only [fail, hu] at h
    cases h
  | some u =>
    cases he : u.error with
    | some e' =>
      simp only [fail, hu, he, Option.isSome_some, if_true] at h
      cases h
    | none =>
      rw [fail_eq o hu he, Option.some.injEq] at h
      subst h
      have hfailed : m.Hushed (m.modify t fun u => { u with error := some e }) :=
        .modify m t fun _ => id
      have hcondemned : m.Hushed (m.condemn t u.children e) :=
        hfailed.trans (.flagged (Registry.cancelAll_flagged _ u.children fun _ => False))
      exact .after hcondemned (blocks_wrapUp o _ t _ _)

end Machine

namespace Config

variable (m : Machine σ) (stack : List Frame) (t : Nat) (o : RunOptions)

/-! ### What works on a task -/

theorem hushed_withCoroutine (go : Coroutine → σ → Progress × Coroutine × σ) :
    m.Hushed (withCoroutine m stack t go).machine := by
  have hstop : ∀ m : Machine σ, m.Hushed (m.modify t fun task => { task with running := false }) :=
    fun m => .modify m t fun _ => id
  unfold withCoroutine
  split
  · exact hstop m
  · rename_i c _
    obtain ⟨progress, c', s⟩ := go c m.outer
    have houter : m.Hushed { m with outer := s } := .of_registry_eq rfl rfl
    have hkept :
        m.Hushed ({ m with outer := s }.modify t fun task => { task with coroutine := some c' }) :=
      houter.trans (.modify _ t fun _ => id)
    cases progress with
    | suspended effect => exact hkept
    | finished v => exact hkept.trans (hstop _)
    | raised e =>
      unfold afterProgress
      dsimp only
      split
      · exact hkept.trans (hstop _)
      · exact hkept

theorem blocks_deliver (w : World σ) (a : Answer) : m.Blocks o (deliver w o m a stack).machine := by
  have hstop : ∀ i, m.Hushed (m.modify i fun task => { task with running := false }) :=
    fun i => .modify m i fun _ => id
  unfold deliver
  split
  · rename_i t below
    cases a with
    | advance v => exact .nothing (hushed_withCoroutine ..)
    | enter g => exact .nothing (hushed_withCoroutine ..)
    | block i => exact .suspends (hstop t) t i
  · rename_i p below
    cases a with
    | advance v => exact .nothing (hstop p)
    | enter g =>
      refine .nothing ?_
      exact (hstop p).trans (.modify _ p fun _ => id)
    | block i => exact .suspends (hstop p) p i
  · exact .nothing (.refl m)

theorem hushed_catchException (w : World σ) (e : Exn) :
    m.Hushed (catchException w m e stack).machine := by
  unfold catchException
  split
  · exact hushed_withCoroutine ..
  · exact .modify m _ fun _ => id
  · exact .refl m
  · exact .refl m

theorem hushed_unwind (f : Failure) : m.Hushed (unwind m f stack).machine := by
  unfold unwind
  split
  · exact .modify m _ fun _ => id
  · exact .refl m
  · exact .refl m

theorem blocks_afterEntry (produced : Except Exn Value) :
    m.Blocks o (afterEntry o m stack t produced).machine := by
  unfold afterEntry
  split
  · exact .nothing (.modify m t fun _ => id)
  · exact Machine.blocks_complete ..
  · split
    · exact .nothing (.of_registry_eq (trace_handling ..) (registry_handling ..))
    · exact .nothing (.refl m)

theorem blocks_start (w : World σ) : m.Blocks o (start w o m stack t).machine := by
  have hentry : m.Hushed (m.modify t fun task => { task with entry := none }) :=
    .modify m t fun _ => id
  cases hu : m.get? t with
  | none =>
    simp only [start, hu]
    exact .nothing (.refl m)
  | some u =>
    cases he : u.entry with
    | none =>
      simp only [start, hu, he]
      exact .after hentry (Machine.blocks_complete ..)
    | some entry =>
      rw [start_eq w o hu he]
      cases entry with
      | constant v => exact .after hentry (blocks_afterEntry ..)
      | planned plan call =>
        have hproduced := Machine.Hushed.of_registry_eq (Machine.trace_produce _ w plan call)
          (Machine.registry_produce w
            (m.modify t fun task => { task with entry := none }) plan call)
        exact .after (hentry.trans hproduced) (blocks_afterEntry ..)

theorem hushed_runTask : m.Hushed (runTask m stack t).machine := by
  have hcalm : m.Hushed { m with handled := none } := .of_registry_eq rfl rfl
  have htaken : m.Hushed (({ m with handled := none } : Machine σ).modify t
      fun task => { task with interruption := none }) := hcalm.trans (.modify _ t fun _ _ => rfl)
  unfold runTask
  split
  · exact .refl m
  · split
    · exact hcalm
    · exact hcalm
    · dsimp only
      split
      · split
        · exact htaken.trans (.finalize ..)
        · exact htaken.trans (.finalize ..)
        · exact htaken
      · split <;> exact htaken

theorem hushed_abandon (failed : Nat) : m.Hushed (abandon m t failed).2 := by
  have hdropped : m.Hushed (m.modify t fun task => { task with interruption := none }) :=
    .modify m t fun _ _ => rfl
  unfold abandon
  split
  · exact .refl m
  · rename_i i _
    dsimp only
    split
    · exact hdropped
    · exact hdropped.trans (.flagged (Registry.letGoOthers_flagged _ t failed i.pending.waitingOn))

def swallowed (u : Task) (e : Exn) : String :=
  "Swallowed error of spawned task " ++ u.name ++ " (id " ++ toString u.id ++ "): " ++ e.literal

theorem propagate_machine (e : Exn) : m.Hushed (propagate o m stack t e).machine ∨
    ∃ u, (propagate o m stack t e).machine = m.note (swallowed u e) := by
  unfold propagate
  split
  · exact .inl (.refl m)
  · rename_i u _
    cases u.parent with
    | none =>
      dsimp only
      split
      · exact .inr ⟨u, rfl⟩
      · exact .inl (.refl m)
    | some p =>
      left
      dsimp only
      split
      · exact .refl m
      · split
        · exact .refl m
        · rename_i up _
          split
          · exact .refl m
          · have h := hushed_abandon m p t
            generalize abandon m p t = dropped at h ⊢
            obtain ⟨direct, m'⟩ := dropped
            dsimp only
            split
            · exact h
            · cases direct with
              | true => exact h
              | false =>
                exact h.trans (.flagged (Registry.cancelAll_flagged _ up.children fun _ => False))

/-- Whoever is settled in a round is held already. -/
theorem hushed_continueRound (finished rest : List Nat) :
    m.Hushed (continueRound m stack finished rest).machine := by
  cases rest with
  | nil => exact ⟨rfl, fun hu hn => ⟨_, hu, hn⟩⟩
  | cons t rest =>
    have hchildren : m.Hushed (m.modify t fun task => task.removeChildren finished) :=
      .modify m t fun _ => id
    unfold continueRound
    dsimp only
    split
    · exact .refl m
    · rename_i u hu
      split
      · exact .refl m
      · split
        · exact hchildren
        · rename_i i hi
          split
          · exact hchildren
          · cases hs : (m.modify t fun task => task.removeChildren finished).registry.settle t i
              finished with
            | error refusal => exact hchildren
            | ok settled =>
              obtain ⟨ok, i', r'⟩ := settled
              have hsettled : m.Hushed { m with registry := r' } :=
                hchildren.trans <| .of_amends rfl
                (Registry.amends_settle
                  (l := ⟨fun _ => False, fun _ => False, fun _ _ => False, fun _ => True, False⟩)
                  (fun _ _ _ => trivial) hs)
                fun _ _ => id
              have hawaiting :
                  m.Hushed ({ m with registry := r' }.modify t fun task => task.awaiting i') := by
                refine ⟨rfl, fun {x v} hv hn => ?_⟩
                have hx : x ≠ t := by
                  rintro rfl
                  rw [show m.registry.get? x = some u from hu, Option.some.injEq] at hv
                  rw [← hv, hi] at hn
                  cases hn
                obtain ⟨v', hv', hn'⟩ := hsettled.free hv hn
                exact ⟨v', (Registry.get?_modify_ne hx).trans hv', hn'⟩
              dsimp only
              split <;> exact hawaiting

end Config

/-! ### A step -/

inductive Config.Writes (o : RunOptions) (c : Config σ) : Machine σ → Prop
  | blocks {m' : Machine σ} (h : c.machine.Blocks o m') : Writes o c m'
  | bubbling {ids : List Nat} {m' : Machine σ} (control : c.control = .bubble ids)
      (wrote : c.machine.noteBubbling o (c.machine.registry.select ids) = .ok m') : Writes o c m'
  | unblocking {root : Nat} {below : List Frame} {m m' : Machine σ} (control : c.control = .done)
      (stack : c.stack = .loop root :: below) (trace : m.trace = c.machine.trace)
      (same : m.registry = c.machine.registry)
      (wrote : m.noteUnblocking o (selectReadyBatch c.machine.registry.pendingTasks) = .ok m') :
      Writes o c m'
  | swallowing (u : Task) (e : Exn) : Writes o c (c.machine.note (swallowed u e))

namespace Config

variable {o : RunOptions} {c : Config σ}

/-- A step that works on no task writes nothing, if it leaves the trace as it is. -/
theorem Writes.of_idle (w : World σ) (hw : ∀ t, ¬ c.footprint.works t)
    (htrace : (c.step w o).machine.trace = c.machine.trace) : c.Writes o (c.step w o).machine :=
  .blocks <| .nothing <| .of_amends htrace (amends_step w o c) fun t ht h =>
    h.elim (hw t) (Nat.not_le_of_lt ht)

theorem writes_continueLoop (m : Machine σ) (root : Nat) (below : List Frame) :
    Writes o ⟨m, .loop root :: below, .done⟩ (continueLoop o m root).machine := by
  have hcounted : m.Hushed m.counted := .of_registry_eq rfl rfl
  unfold continueLoop
  split
  · exact .blocks (.nothing (.refl m))
  · rcases Nat.lt_or_ge m.steps o.stepLimit with hlt | hle
    · rw [m.tick_of_lt hlt]
      dsimp only
      split
      · exact .blocks (.nothing hcounted)
      · split
        · exact .blocks (.nothing hcounted)
        · rename_i wrote
          exact .unblocking (m := m.counted) rfl rfl rfl rfl wrote
    · obtain ⟨f, htick, _⟩ := m.tick_of_le hle
      rw [htick]
      exact .blocks (.nothing hcounted)

theorem writes_proceed (w : World σ) (m : Machine σ) (stack : List Frame) :
    Writes o ⟨m, stack, .done⟩ (proceed o m stack).machine := by
  match stack with
  | [] => exact .blocks (.nothing (.refl m))
  | .driving _ :: _ => exact .blocks (.nothing (.refl m))
  | .member _ :: _ => exact .blocks (.nothing (.refl m))
  | .composite k :: below =>
    exact .of_idle (c := ⟨m, .composite k :: below, .done⟩) w (fun _ => id)
      (m.trace_continueComposite k)
  | .forked child :: below =>
    refine .of_idle (c := ⟨m, .forked child :: below, .done⟩) w (fun _ => id) ?_
    show (m.afterFork child).machine.trace = m.trace
    unfold Machine.afterFork
    split
    · split
      · split <;> rfl
      · rfl
    · rfl
  | .batch rest :: below =>
    refine .of_idle (c := ⟨m, .batch rest :: below, .done⟩) w (fun _ => id) ?_
    show (continueBatch m below rest).machine.trace = m.trace
    unfold continueBatch
    split
    · rfl
    · split
      · split <;> rfl
      · rfl
  | .round finished rest :: below =>
    exact .blocks (.nothing (hushed_continueRound m below finished rest))
  | .loop root :: below => exact writes_continueLoop m root below

/-- **What a step writes.** A task is blocked at most; or it is a line about what is bubbled, about
the batch that is picked, or about an error that is swallowed. -/
theorem writes_step (w : World σ) (o : RunOptions) (c : Config σ) :
    c.Writes o (c.step w o).machine := by
  obtain ⟨m, stack, control⟩ := c
  cases control with
  | done => exact writes_proceed w m stack
  | raised e => exact .blocks (.nothing (hushed_catchException m stack w e))
  | abort f => exact .blocks (.nothing (hushed_unwind m stack f))
  | answer a => exact .blocks (blocks_deliver m stack o w a)
  | drive t s =>
    have hrunning : m.Hushed (m.modify t fun task => { task with running := true }) :=
      .modify m t fun _ => id
    exact .blocks (.nothing (hrunning.trans (hushed_withCoroutine ..)))
  | interpret t effect b =>
    exact .of_idle (c := ⟨m, stack, .interpret t effect b⟩) w (fun _ => id)
      (m.trace_interpret w t o effect b)
  | runTask t => exact .blocks (.nothing (hushed_runTask m stack t))
  | start t => exact .blocks (blocks_start m stack t o w)
  | complete t v => exact .blocks (m.blocks_complete o t v)
  | fail t e =>
    unfold step
    dsimp only
    split
    · rename_i h
      exact .blocks (Machine.blocks_fail h)
    · exact .blocks (.nothing (.refl m))
  | propagate t e =>
    rcases propagate_machine m stack t o e with h | ⟨u, h⟩
    · exact .blocks (.nothing h)
    · show Writes o _ (propagate o m stack t e).machine
      rw [h]
      exact .swallowing u e
  | bubble finished =>
    show Writes o _ (bubble o m stack finished).machine
    unfold bubble
    split
    · exact .blocks (.nothing (.refl m))
    · split
      · exact .blocks (.nothing (.refl m))
      · rename_i wrote
        exact .bubbling rfl wrote

end Config

end Rehearsal
