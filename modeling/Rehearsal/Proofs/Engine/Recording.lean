import Rehearsal.Engine.Run
import Rehearsal.Proofs.Engine.Composites
import Rehearsal.Proofs.Engine.Starting

/-!
# What passes between the scheduler and the world

The scheduler meets tested code in four ways only: it resumes a generator, calls a function, asks
for the plan of a call, and asks a handler. `World.recorded` is a world that answers as before and
keeps a record of this. A world that mimics another one, seen through a function of its state, makes
the same run of it, so the record changes nothing.
-/
namespace Rehearsal

variable {σ τ : Type}

/-- One request of the scheduler, and the answer it got. -/
inductive Exchange where
  | resumed (g : Nat) (signal : Signal) (response : Response)
  | invoked (call : Call) (answer : Except Exn Value)
  | planned (call : Call) (forked : Bool) (answer : Except Failure CallPlan)
  | handled (e : Effect) (context : Context) (answer : Except Failure Reaction)

namespace World

/-- The world that keeps a record of what passes between it and the scheduler. -/
def recorded (w : World σ) : World (σ × List Exchange) where
  resume view g signal s :=
    let (response, outer) := w.resume view g signal s.1
    (response, outer, s.2 ++ [.resumed g signal response])
  plan view call forked s :=
    let (answer, outer) := w.plan view call forked s.1
    (answer, outer, s.2 ++ [.planned call forked answer])
  invoke view call s :=
    let (answer, outer) := w.invoke view call s.1
    (answer, outer, s.2 ++ [.invoked call answer])
  handler? e := (w.handler? e).map fun handler view context s =>
    let (answer, outer) := handler view context s.1
    (answer, outer, s.2 ++ [.handled e context answer])

/-- The world `v` answers as `w` does when its state is seen through `f`. -/
structure Mimics (v : World σ) (w : World τ) (f : σ → τ) : Prop where
  resume : ∀ view g signal s, w.resume view g signal (f s) = (v.resume view g signal s).map id f
  plan : ∀ view call forked s, w.plan view call forked (f s) = (v.plan view call forked s).map id f
  invoke : ∀ view call s, w.invoke view call (f s) = (v.invoke view call s).map id f
  unhandled : ∀ e, v.handler? e = none → w.handler? e = none
  handled : ∀ {e h}, v.handler? e = some h → ∃ h', w.handler? e = some h' ∧
    ∀ view context s, h' view context (f s) = (h view context s).map id f

theorem recorded_mimics (w : World σ) : w.recorded.Mimics w Prod.fst where
  resume _ _ _ _ := rfl
  plan _ _ _ _ := rfl
  invoke _ _ _ := rfl
  unhandled e h := by simpa [recorded] using h
  handled := by
    intro e h hh
    obtain ⟨handler, hw, rfl⟩ := Option.map_eq_some_iff.mp hh
    exact ⟨handler, hw, fun _ _ _ => rfl⟩

end World

/-! ### The machine seen through a function of the world's state -/

def Machine.seen (f : σ → τ) (m : Machine σ) : Machine τ :=
  ⟨m.registry, m.steps, m.trace, m.handled, f m.outer⟩

def Outcome.seen (f : σ → τ) (r : Outcome σ) : Outcome τ := ⟨r.machine.seen f, r.frames, r.control⟩

def Config.seen (f : σ → τ) (c : Config σ) : Config τ := ⟨c.machine.seen f, c.stack, c.control⟩

namespace Machine

variable {v : World σ} {w : World τ} {f : σ → τ} (m : Machine σ) (o : RunOptions) (t : Nat)

theorem noteInterrupt_seen (task : Task) :
    (m.seen f).noteInterrupt o task = (m.noteInterrupt o task).seen f := by
  unfold noteInterrupt
  split <;> rfl

theorem noteBubbling_seen (finished : List Task) :
    (m.seen f).noteBubbling o finished = (m.noteBubbling o finished).map (seen f) := by
  have hpending : (m.seen f).registry = m.registry := rfl
  unfold noteBubbling
  rw [hpending]
  split
  · generalize m.registry.renderTasks finished = tasks
    generalize m.registry.renderPendingTasks m.registry.pendingTasks = pending
    cases tasks with
    | error r => rfl
    | ok tasks => cases pending <;> rfl
  · rfl

theorem noteUnblocking_seen (batch : List Task) :
    (m.seen f).noteUnblocking o batch = (m.noteUnblocking o batch).map (seen f) := by
  have hpending : (m.seen f).registry = m.registry := rfl
  unfold noteUnblocking
  rw [hpending]
  split
  · generalize m.registry.renderTasks batch = tasks
    generalize renderTaskTree m.registry.pendingTasks = tree
    cases tasks with
    | error r => rfl
    | ok tasks => cases tree <;> rfl
  · rfl

theorem suspend_seen (i : Interruption) : (m.seen f).suspend o t i = (m.suspend o t i).seen f := by
  have hget : ((m.seen f).modify t fun task => task.block i).get? t =
    (m.modify t fun task => task.block i).get? t := rfl
  unfold suspend
  simp only [hget]
  split
  · exact noteInterrupt_seen (m.modify t fun task => task.block i) o _
  · rfl

theorem holdForChildren_seen (held : Pending) : (m.seen f).holdForChildren o t held =
    (m.holdForChildren o t held).map id (seen f) := by
  have hget : (m.seen f).get? t = m.get? t := rfl
  unfold holdForChildren
  rw [hget]
  cases m.get? t with
  | none => rfl
  | some task =>
    rw [show (m.seen f).registry = m.registry from rfl]
    dsimp only
    generalize task.children.filter (fun c => !m.registry.isDone c) = live
    split
    · rfl
    · exact congrArg (Prod.mk true)
        (suspend_seen ((m.modify t fun task => { task with children := live }).modify t
        fun task => { task with coroutine := none }) o t _)

theorem wrapUp_seen (held : Pending) (value : Value) :
    (m.seen f).wrapUp o t held value = (m.wrapUp o t held value).seen f := by
  unfold wrapUp
  rw [holdForChildren_seen]
  generalize m.holdForChildren o t held = outcome
  obtain ⟨ok, m'⟩ := outcome
  cases ok <;> rfl

theorem fail_seen (e : Exn) : (m.seen f).fail o t e = (m.fail o t e).map (seen f) := by
  have hget : (m.seen f).get? t = m.get? t := rfl
  cases ht : m.get? t with
  | none =>
    unfold fail
    rw [hget, ht]
    rfl
  | some task =>
    cases herror : task.error with
    | some e' =>
      unfold fail
      rw [hget, ht]
      simp only [herror, Option.isSome_some, if_true, Option.map_none]
    | none =>
      rw [fail_eq o (hget.trans ht) herror, fail_eq o ht herror, Option.map_some, ← wrapUp_seen]
      rfl

theorem produce_seen (h : v.Mimics w f) (plan : CallPlan) (call : Call) :
    (m.seen f).produce w plan call = (m.produce v plan call).map id (seen f) := by
  unfold produce
  split
  · rfl
  · split
    · have hinvoke := h.invoke m.view call m.outer
      rw [show (m.seen f).view = m.view from rfl, show (m.seen f).outer =
        f m.outer from rfl, hinvoke]
      rfl
    · rfl

theorem produced_seen (value : Value) : (m.seen f).produced value = (m.produced value).seen f := by
  unfold produced
  split <;> rfl

theorem interpretCall_seen (h : v.Mimics w f) (call : Call) :
    (m.seen f).interpretCall w t call = (m.interpretCall v t call).seen f := by
  have hplan := h.plan m.view call false m.outer
  unfold interpretCall
  rw [show (m.seen f).view = m.view from rfl, show (m.seen f).outer = f m.outer from rfl, hplan]
  generalize v.plan m.view call false m.outer = planned
  obtain ⟨answer, s⟩ := planned
  cases answer with
  | error e => rfl
  | ok plan =>
    dsimp only [Prod.map, id]
    split
    · have hproduce := produce_seen { m with outer := s } h plan call
      rw [show ({ m.seen f with outer := f s } : Machine τ) =
        seen f { m with outer := s } from rfl, hproduce]
      generalize produce v { m with outer := s } plan call = made
      obtain ⟨value, m'⟩ := made
      cases value with
      | error e => rfl
      | ok value => exact produced_seen ..
    · rfl

theorem interpretFork_seen (h : v.Mimics w f) (call : Call) (detached : Bool) :
    (m.seen f).interpretFork w t call detached = (m.interpretFork v t call detached).seen f := by
  have hplan := h.plan m.view call true m.outer
  unfold interpretFork
  rw [show (m.seen f).view = m.view from rfl, show (m.seen f).outer = f m.outer from rfl, hplan]
  generalize v.plan m.view call true m.outer = planned
  obtain ⟨answer, s⟩ := planned
  cases answer with
  | error e => rfl
  | ok plan =>
    dsimp only [Prod.map, id]
    split
    · rfl
    · rfl

theorem interpretJoin_seen (targets : Targets) :
    (m.seen f).interpretJoin targets = (m.interpretJoin targets).seen f := by
  unfold interpretJoin
  rw [show (m.seen f).unknownTarget? targets = m.unknownTarget? targets from rfl]
  split
  · rfl
  · dsimp only
    split
    · split
      · rfl
      · contradiction
    · split
      · contradiction
      · rfl

theorem interpretCancel_seen (targets : Targets) :
    (m.seen f).interpretCancel targets = (m.interpretCancel targets).seen f := by
  unfold interpretCancel
  rw [show (m.seen f).unknownTarget? targets = m.unknownTarget? targets from rfl]
  split <;> rfl

theorem interpretCancelled_seen :
    (m.seen f).interpretCancelled t = (m.interpretCancelled t).seen f := by
  unfold interpretCancelled
  rw [show (m.seen f).get? ((m.seen f).registry.coroutineOwner t) =
    m.get? (m.registry.coroutineOwner t)
    from rfl]
  split <;> rfl

theorem concludeComposite_seen (c : Composite) :
    (m.seen f).concludeComposite c = (m.concludeComposite c).seen f := by
  rw [concludeComposite_eq, concludeComposite_eq,
    show (m.seen f).firstError? (c.made.map (·.2)) = m.firstError? (c.made.map (·.2)) from rfl,
    show (m.seen f).registry = m.registry from rfl]
  split
  · rfl
  · dsimp only
    split
    · rfl
    · split <;> rfl

theorem continueComposite_seen (c : Composite) :
    (m.seen f).continueComposite c = (m.continueComposite c).seen f := by
  unfold continueComposite
  split
  · exact concludeComposite_seen ..
  · rfl

theorem interpretExternal_seen (h : v.Mimics w f) (e : Effect) (inComposite : Bool) :
    (m.seen f).interpretExternal w t e inComposite =
      (m.interpretExternal v t e inComposite).seen f := by
  unfold interpretExternal
  cases hv : v.handler? e with
  | none =>
    rw [h.unhandled e hv]
    rfl
  | some handler =>
    obtain ⟨handler', hw, hmimics⟩ := h.handled hv
    have hanswer := hmimics m.view ⟨⟨t, m.nameOf t, true⟩, inComposite, m.steps⟩ m.outer
    rw [hw]
    dsimp only
    rw [show (m.seen f).view = m.view from rfl, show (m.seen f).nameOf t = m.nameOf t from rfl,
      show (m.seen f).steps = m.steps from rfl, show (m.seen f).outer = f m.outer from rfl, hanswer]
    generalize handler m.view ⟨⟨t, m.nameOf t, true⟩, inComposite, m.steps⟩ m.outer = reacted
    obtain ⟨reaction, s⟩ := reacted
    cases reaction with
    | error e => rfl
    | ok reaction => cases reaction <;> rfl

theorem interpretEffect_seen (h : v.Mimics w f) (e : Effect) (inComposite : Bool) :
    (m.seen f).interpretEffect w t e inComposite =
      (m.interpretEffect v t e inComposite).seen f := by
  unfold interpretEffect
  split
  · exact interpretCall_seen m t h _
  · exact interpretFork_seen m t h _ _
  · exact interpretJoin_seen m _
  · exact continueComposite_seen m _
  · exact continueComposite_seen m _
  · exact interpretCancel_seen m _
  · rfl
  · exact interpretCancelled_seen m t
  · rfl
  · exact interpretExternal_seen m t h _ _

theorem tick_seen : (m.seen f).tick o = (m.tick o).map id (seen f) := by
  unfold tick
  dsimp only
  rw [show (m.seen f).steps = m.steps from rfl]
  split <;> rfl

theorem interpret_seen (h : v.Mimics w f) (effect : Value) (inComposite : Bool) :
    (m.seen f).interpret w o t effect inComposite =
      (m.interpret v o t effect inComposite).seen f := by
  unfold interpret
  rw [tick_seen]
  generalize m.tick o = ticked
  obtain ⟨result, m'⟩ := ticked
  cases result with
  | error e => rfl
  | ok _ =>
    cases effect with
    | effect e => exact interpretEffect_seen m' t h e inComposite
    | _ => rfl

theorem afterFork_seen (child : Nat) : (m.seen f).afterFork child = (m.afterFork child).seen f := by
  unfold afterFork
  rw [show (m.seen f).get? child = m.get? child from rfl]
  split
  · split
    · split <;> rfl
    · rfl
  · rfl

end Machine

namespace Config

variable {v : World σ} {w : World τ} {f : σ → τ} (m : Machine σ)
    (stack : List Frame) (o : RunOptions)

theorem afterProgress_seen (t : Nat) (p : Progress) :
    afterProgress (m.seen f) stack t p = (afterProgress m stack t p).seen f := by
  unfold afterProgress
  split
  · rfl
  · rfl
  · split <;> rfl

theorem withCoroutine_seen (t : Nat) {go : Coroutine → σ → Progress × Coroutine × σ}
    {go' : Coroutine → τ → Progress × Coroutine × τ}
    (hgo : ∀ c s, go' c (f s) = (go c s).map id (Prod.map id f)) :
    withCoroutine (m.seen f) stack t go' = (withCoroutine m stack t go).seen f := by
  unfold withCoroutine
  rw [show (m.seen f).get? t = m.get? t from rfl]
  split
  · rfl
  · rename_i c _
    rw [show (m.seen f).outer = f m.outer from rfl, hgo]
    generalize go c m.outer = went
    obtain ⟨p, c', s⟩ := went
    exact afterProgress_seen (({ m with outer := s } : Machine σ).modify t fun task =>
      { task with coroutine := some c' }) stack t p

theorem advance_seen {resume : Nat → Signal → σ → Response × σ}
    {resume' : Nat → Signal → τ → Response × τ}
    (h : ∀ g signal s, resume' g signal (f s) = (resume g signal s).map id f) (spent : Exn)
    (signal : Signal) (frames : List Nat) (s : σ) :
    Coroutine.advance resume' spent signal frames (f s) =
      (Coroutine.advance resume spent signal frames s).map id (Prod.map id f) := by
  induction frames generalizing signal s with
  | nil => rfl
  | cons g below ih =>
    rw [Coroutine.advance, Coroutine.advance, h]
    generalize resume g signal s = went
    obtain ⟨response, s'⟩ := went
    cases response with
    | yielded x => rfl
    | returned x =>
      dsimp only [Prod.map, id]
      split
      · rfl
      · exact ih (.send x) s'
    | raised e =>
      dsimp only [Prod.map, id]
      split
      · rfl
      · split
        · rfl
        · exact ih (.throw e) s'

theorem resumeSeeing_seen (h : v.Mimics w f) (view : View) (t : Nat) (signal : Signal) :
    resumeSeeing w view (m.seen f) stack t signal =
      (resumeSeeing v view m stack t signal).seen f := by
  refine withCoroutine_seen m stack t fun c s => ?_
  unfold Coroutine.resume
  rw [advance_seen (h.resume view)]
  rfl

theorem resume_seen (h : v.Mimics w f) (t : Nat) (signal : Signal) :
    resume w (m.seen f) stack t signal = (resume v m stack t signal).seen f :=
  resumeSeeing_seen m stack h m.view t signal

theorem enter_seen (h : v.Mimics w f) (t g : Nat) :
    enter w (m.seen f) stack t g = (enter v m stack t g).seen f := by
  refine withCoroutine_seen m stack t fun c s => ?_
  unfold Coroutine.enter
  rw [show (m.seen f).view = m.view from rfl, advance_seen (h.resume m.view)]
  rfl

theorem drive_seen (h : v.Mimics w f) (t : Nat) (signal : Signal) :
    drive w (m.seen f) stack t signal = (drive v m stack t signal).seen f :=
  resume_seen (m.modify t fun task => { task with running := true }) stack h t signal

theorem deliver_seen (h : v.Mimics w f) (a : Answer) :
    deliver w o (m.seen f) a stack = (deliver v o m a stack).seen f := by
  unfold deliver
  split
  · cases a with
    | advance x => exact resume_seen m _ h _ _
    | enter g => exact enter_seen m _ h _ _
    | block i =>
      exact congrArg (halt · _)
        (Machine.suspend_seen (m.modify _ fun task => { task with running := false }) o _ i)
  · cases a with
    | advance x => rfl
    | enter g => rfl
    | block i =>
      exact congrArg (halt · _)
        (Machine.suspend_seen (m.modify _ fun task => { task with running := false }) o _ i)
  · rfl

theorem catchException_seen (h : v.Mimics w f) (e : Exn) :
    catchException w (m.seen f) e stack = (catchException v m e stack).seen f := by
  unfold catchException
  split
  · exact resumeSeeing_seen m _ h _ _ _
  · rfl
  · rfl
  · rfl

theorem unwind_seen (failure : Failure) :
    unwind (m.seen f) failure stack = (unwind m failure stack).seen f := by
  unfold unwind
  split <;> rfl

theorem halt_complete_seen (t : Nat) (x : Value) :
    halt ((m.seen f).complete o t x) stack = (halt (m.complete o t x) stack).seen f :=
  congrArg (halt · stack) (Machine.wrapUp_seen m o t (.returned x) x)

theorem handling_seen (e : Exn) : handling (m.seen f) e stack = (handling m e stack).seen f := by
  unfold handling
  split <;> rfl

theorem afterEntry_seen (t : Nat) (produced : Except Exn Value) :
    afterEntry o (m.seen f) stack t produced = (afterEntry o m stack t produced).seen f := by
  unfold afterEntry
  split
  · rfl
  · exact halt_complete_seen ..
  · split
    · rw [handling_seen]
      rfl
    · rfl

theorem start_seen (h : v.Mimics w f) (t : Nat) :
    start w o (m.seen f) stack t = (start v o m stack t).seen f := by
  cases ht : m.get? t with
  | none =>
    unfold start
    rw [show (m.seen f).get? t = m.get? t from rfl, ht]
    rfl
  | some task =>
    have ht' : (m.seen f).get? t = some task := ht
    cases hentry : task.entry with
    | none =>
      unfold start
      rw [ht, ht']
      simp only [hentry]
      exact halt_complete_seen (m.modify t fun task => { task with entry := none }) ..
    | some entry =>
      rw [start_eq v o ht hentry, start_eq w o ht' hentry]
      cases entry with
      | planned plan call =>
        have hproduce :=
          Machine.produce_seen (m.modify t fun task => { task with entry := none }) h plan call
        dsimp only
        rw [show (m.seen f).modify t (fun task => { task with entry := none }) =
          (m.modify t fun task => { task with entry := none }).seen f from rfl, hproduce]
        exact afterEntry_seen ..
      | constant x => exact afterEntry_seen (m.modify t fun task => { task with entry := none }) ..

theorem runTask_seen (t : Nat) : runTask (m.seen f) stack t = (runTask m stack t).seen f := by
  unfold runTask
  rw [show (m.seen f).get? t = m.get? t from rfl]
  split
  · rfl
  · split
    · rfl
    · rfl
    · dsimp only
      split
      · split <;> rfl
      · split <;> rfl

theorem abandon_seen (parent failed : Nat) :
    abandon (m.seen f) parent failed = (abandon m parent failed).map id (Machine.seen f) := by
  unfold abandon
  rw [show (m.seen f).get? parent = m.get? parent from rfl]
  split
  · rfl
  · dsimp only
    split <;> rfl

theorem propagate_seen (t : Nat) (e : Exn) :
    propagate o (m.seen f) stack t e = (propagate o m stack t e).seen f := by
  unfold propagate
  rw [show (m.seen f).get? t = m.get? t from rfl]
  split
  · rfl
  · split
    · split <;> rfl
    · rename_i p _
      split
      · rfl
      · rw [show (m.seen f).get? p = m.get? p from rfl]
        split
        · rfl
        · split
          · rfl
          · rw [abandon_seen]
            generalize abandon m p t = abandoned
            obtain ⟨direct, m'⟩ := abandoned
            dsimp only [Prod.map, id]
            split
            · rfl
            · cases direct <;> rfl

theorem bubble_seen (finished : List Nat) :
    bubble o (m.seen f) stack finished = (bubble o m stack finished).seen f := by
  unfold bubble
  split
  · rfl
  · rw [show (m.seen f).registry = m.registry from rfl, Machine.noteBubbling_seen]
    generalize m.noteBubbling o (m.registry.select finished) = noted
    cases noted <;> rfl

theorem continueRound_seen (finished rest : List Nat) :
    continueRound (m.seen f) stack finished rest =
      (continueRound m stack finished rest).seen f := by
  unfold continueRound
  split
  · rfl
  · rename_i t rest
    dsimp only
    rw [show (m.seen f).get? t = m.get? t from rfl]
    split
    · rfl
    · split
      · rfl
      · split
        · rfl
        · split
          · rfl
          · rw [show ((m.seen f).modify t fun task => task.removeChildren finished).registry =
              (m.modify t fun task => task.removeChildren finished).registry from rfl]
            split
            · rfl
            · split <;> rfl

theorem continueLoop_seen (root : Nat) :
    continueLoop o (m.seen f) root = (continueLoop o m root).seen f := by
  unfold continueLoop
  rw [show settled o (m.seen f) root = settled o m root from rfl]
  split
  · rfl
  · rw [Machine.tick_seen]
    generalize m.tick o = ticked
    obtain ⟨result, m'⟩ := ticked
    cases result with
    | error e => rfl
    | ok _ =>
      dsimp only [Prod.map, id]
      rw [show (m'.seen f).registry = m'.registry from rfl]
      split
      · rfl
      · rw [Machine.noteUnblocking_seen]
        generalize m'.noteUnblocking o (selectReadyBatch m'.registry.pendingTasks) = noted
        cases noted <;> rfl

theorem continueBatch_seen (rest : List Nat) :
    continueBatch (m.seen f) stack rest = (continueBatch m stack rest).seen f := by
  unfold continueBatch
  split
  · rfl
  · rename_i t _
    rw [show (m.seen f).get? t = m.get? t from rfl]
    split
    · split <;> rfl
    · rfl

theorem proceed_seen : proceed o (m.seen f) stack = (proceed o m stack).seen f := by
  unfold proceed
  split
  · rfl
  · rfl
  · rfl
  · rw [Machine.continueComposite_seen]
    rfl
  · rw [Machine.afterFork_seen]
    rfl
  · exact continueBatch_seen ..
  · exact continueRound_seen ..
  · exact continueLoop_seen ..

/-- **Where a world is mimicked the same happens in each step.** -/
theorem step_seen (h : v.Mimics w f) (c : Config σ) :
    (c.seen f).step w o = (c.step v o).seen f := by
  obtain ⟨m, stack, control⟩ := c
  cases control with
  | done => exact proceed_seen m stack o
  | raised e => exact catchException_seen m stack h e
  | abort failure => exact unwind_seen m stack failure
  | answer a => exact deliver_seen m stack o h a
  | drive t signal => exact drive_seen m stack h t signal
  | interpret t effect inComposite =>
    exact congrArg (ofOutcome stack) (Machine.interpret_seen m o t h effect inComposite)
  | runTask t => exact runTask_seen m stack t
  | start t => exact start_seen m stack o h t
  | complete t x => exact halt_complete_seen m stack o t x
  | fail t e =>
    have hfail := Machine.fail_seen (f := f) m o t e
    unfold step
    dsimp only [Machine.seen, seen] at hfail ⊢
    rw [hfail]
    cases m.fail o t e <;> rfl
  | propagate t e => exact propagate_seen m stack o t e
  | bubble finished => exact bubble_seen m stack o finished

theorem run_seen (h : v.Mimics w f) (n : Nat) (c : Config σ) :
    run w o n (c.seen f) = (run v o n c).seen f := by
  induction n generalizing c with
  | zero => rfl
  | succ n ih =>
    rw [run, run, show (c.seen f).isFinal = c.isFinal from rfl]
    split
    · rfl
    · rw [step_seen o h, ih]

/-- **The record changes nothing.** -/
theorem run_recorded (w : World σ) (n : Nat) (c : Config (σ × List Exchange)) :
    (run w.recorded o n c).seen Prod.fst = run w o n (c.seen Prod.fst) :=
  (run_seen o w.recorded_mimics n c).symm

end Config

/-! ### What the world's state keeps -/

namespace World

variable {P : σ → Prop}

/-- Whatever the scheduler asks of the world, its state keeps `P`. -/
structure Closed (w : World σ) (P : σ → Prop) : Prop where
  resume : ∀ view g signal {s}, P s → P (w.resume view g signal s).2
  plan : ∀ view call forked {s}, P s → P (w.plan view call forked s).2
  invoke : ∀ view call {s}, P s → P (w.invoke view call s).2
  handle : ∀ {e h}, w.handler? e = some h → ∀ view context {s}, P s → P (h view context s).2

def confined (w : World σ) (closed : w.Closed P) : World { s // P s } where
  resume view g signal s := ((w.resume view g signal s.1).1, ⟨_, closed.resume view g signal s.2⟩)
  plan view call forked s :=
    ((w.plan view call forked s.1).1, ⟨_, closed.plan view call forked s.2⟩)
  invoke view call s := ((w.invoke view call s.1).1, ⟨_, closed.invoke view call s.2⟩)
  handler? e := (w.handler? e).pmap
    (fun h hh view context s => ((h view context s.1).1, ⟨_, closed.handle hh view context s.2⟩))
    fun _ => id

theorem confined_mimics (w : World σ) (closed : w.Closed P) :
    (w.confined closed).Mimics w Subtype.val where
  resume _ _ _ _ := rfl
  plan _ _ _ _ := rfl
  invoke _ _ _ := rfl
  unhandled e h := by simpa [confined] using h
  handled := by
    intro e h hh
    simp only [confined, Option.pmap_eq_some_iff] at hh
    obtain ⟨handler, hw, _, rfl⟩ := hh
    exact ⟨handler, hw, fun _ _ _ => rfl⟩

end World

namespace Config

/-- **What the world's state keeps, it keeps in every step.** The step is one in the world that
knows no other states. -/
theorem outer_step {w : World σ} {P : σ → Prop} (closed : w.Closed P)
    (o : RunOptions) {c : Config σ}
    (h : P c.machine.outer) : P (c.step w o).machine.outer := by
  have hstep := step_seen o (w.confined_mimics closed)
    ⟨⟨c.machine.registry, c.machine.steps, c.machine.trace, c.machine.handled,
      ⟨c.machine.outer, h⟩⟩,
      c.stack, c.control⟩
  rw [show c.step w o = _ from hstep]
  exact Subtype.property _

theorem outer_run {w : World σ} {P : σ → Prop} (closed : w.Closed P) (o : RunOptions) {c : Config σ}
    (h : P c.machine.outer) (n : Nat) : P (run w o n c).machine.outer := by
  induction n generalizing c with
  | zero => exact h
  | succ n ih =>
    rw [run]
    split
    · exact h
    · exact ih (outer_step closed o h)

end Config

/-- A record only grows. -/
theorem World.recorded_closed (w : World σ) (log : List Exchange) :
    w.recorded.Closed fun s => log <+: s.2 where
  resume _ _ _ _ h := h.trans (List.prefix_append ..)
  plan _ _ _ _ h := h.trans (List.prefix_append ..)
  invoke _ _ _ h := h.trans (List.prefix_append ..)
  handle := by
    intro e h hh view context s hs
    obtain ⟨handler, _, rfl⟩ := Option.map_eq_some_iff.mp hh
    exact hs.trans (List.prefix_append ..)

theorem Config.record_run (w : World σ) (o : RunOptions)
    (c : Config (σ × List Exchange)) (n : Nat) :
    c.machine.outer.2 <+: (run w.recorded o n c).machine.outer.2 :=
  outer_run (w.recorded_closed c.machine.outer.2) o (List.prefix_refl _) n

def Config.withRecord {σ : Type} (c : Config σ) : Config (σ × List Exchange) :=
  ⟨⟨c.machine.registry, c.machine.steps, c.machine.trace, c.machine.handled, c.machine.outer, []⟩,
    c.stack, c.control⟩

/-- The world accounts for its state by its answers: from the one state to the other `R` holds of
what is read off the exchanges on the way. -/
structure World.Accounts {α : Type} (w : World σ) (read? : Exchange → Option α)
    (R : σ → List α → σ → Prop) :
    Prop where
  refl : ∀ s, R s [] s
  trans : ∀ {s xs s' ys s''}, R s xs s' → R s' ys s'' → R s (xs ++ ys) s''
  resume : ∀ view g signal s,
    R s (read? (.resumed g signal (w.resume view g signal s).1)).toList (w.resume view g signal s).2
  plan : ∀ view call forked s,
    R s (read? (.planned call forked (w.plan view call forked s).1)).toList
      (w.plan view call forked s).2
  invoke : ∀ view call s, R s (read? (.invoked call (w.invoke view call s).1)).toList
    (w.invoke view call s).2
  handle : ∀ {e h}, w.handler? e = some h → ∀ view context s,
    R s (read? (.handled e context (h view context s).1)).toList (h view context s).2

namespace World.Accounts

variable {α : Type} {w : World σ} {read? : Exchange → Option α} {R : σ → List α → σ → Prop}

theorem closed (h : w.Accounts read? R) (s : σ) :
    w.recorded.Closed fun s' => R s (s'.2.filterMap read?) s'.1 := by
  have hextend : ∀ {s' s'' log x}, R s (log.filterMap read?) s' → R s' (read? x).toList s'' →
      R s ((log ++ [x]).filterMap read?) s'' := by
    intro s' s'' log x hlog hx
    rw [List.filterMap_append, List.filterMap_cons, List.filterMap_nil]
    refine h.trans hlog ?_
    cases hread : read? x <;> rwa [hread] at hx
  refine ⟨fun view g signal s' hs => hextend hs (h.resume view g signal s'.1),
    fun view call forked s' hs => hextend hs (h.plan view call forked s'.1),
    fun view call s' hs => hextend hs (h.invoke view call s'.1), ?_⟩
  intro e handler hhandler view context s' hs
  obtain ⟨handler', hhandler', rfl⟩ := Option.map_eq_some_iff.mp hhandler
  exact hextend hs (h.handle hhandler' view context s'.1)

/-- **A run is accounted for by its record.** -/
theorem run (h : w.Accounts read? R) (o : RunOptions) (c : Config σ) (n : Nat) :
    R c.machine.outer ((Config.run w.recorded o n c.withRecord).machine.outer.2.filterMap read?)
      (Config.run w o n c).machine.outer := by
  have hrecord := Config.outer_run (h.closed c.machine.outer) o (c := c.withRecord) (h.refl _) n
  have hrun : (Config.run w.recorded o n c.withRecord).machine.outer.1 =
      (Config.run w o n c).machine.outer :=
    congrArg (·.machine.outer) (Config.run_recorded o w n c.withRecord)
  rwa [hrun] at hrecord

end World.Accounts

end Rehearsal
