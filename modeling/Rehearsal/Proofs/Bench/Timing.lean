import Rehearsal.Proofs.Bench.Deferral
import Rehearsal.Proofs.Bench.Delegating

/-!
# When calls are made

A sequential script is rehearsed with planners that differ in nothing but when calls are made. The
rehearsals end alike, and what has been expected has come about in the one just as in the other.
-/
namespace Rehearsal

open Script

variable {callable : Value → Prop} {alike : Memory → Memory → Prop}

/-! ### Runs -/

namespace Bench

/-- The same has been dispatched, taken and counted. -/
structure SameOutcome (s u : Bench) : Prop where
  calls : s.calls.prompt = u.calls.prompt
  actions : s.actions = u.actions
  queue : s.queue = u.queue
  dispatched : s.dispatched = u.dispatched

theorem SameButWaits.sameOutcome {s s' u : Bench} (h : s.SameButWaits callable alike u)
    (h' : s'.SameButWaits callable alike u) : s.SameOutcome s' where
  calls := h.calls.trans h'.calls.symm
  actions := h.actions.trans h'.actions.symm
  queue := h.queue.trans h'.queue.symm
  dispatched := h.dispatched.trans h'.dispatched.symm

/-- A bench on which nothing is to be made later is like itself. -/
theorem SameButWaits.right {s u : Bench} (h : s.SameButWaits callable alike u)
    (self : alike u.memory u.memory) :
    u.SameButWaits callable alike u where
  memory := self
  calls := rfl
  actions := rfl
  queue := rfl
  dispatched := rfl
  asksOfCalls := by
    rw [← CallLedger.predicates_prompt, ← h.calls, CallLedger.predicates_prompt]
    exact h.asksOfCalls
  asksOfActions := h.actions ▸ h.asksOfActions

/-- The same expectations are reported as unmet, where values show the same. -/
theorem SameOutcome.unmet {s u : Bench} (h : s.SameOutcome u)
    (shown : s.memory.shown = u.memory.shown) : Tester.unmet s = Tester.unmet u := by
  unfold Tester.unmet
  dsimp only
  rw [shown, h.actions, ← CallLedger.unmetMessages_prompt _ s.calls, h.calls,
    CallLedger.unmetMessages_prompt]

end Bench

namespace Setup

theorem SameButWait.follows_right {setup setup' : Setup} (h : setup.SameButWait setup')
    (standard : setup.Standard)
    (sequential : setup.program.Sequential ErrorClass.isOrdinary callable alike) :
    setup'.world.Follows (Effect.CallsOnly callable) setup'.world
      (Bench.SameButWaits callable alike) := by
  have hstandard : setup'.Standard := by
    rw [Setup.Standard, ← h.handlers]
    exact standard
  exact (Setup.SameButWait.refl setup').follows hstandard (h.program ▸ sequential)

/-- **When calls are made makes no difference to a sequential rehearsal**, with planners that differ
in nothing else and the standard handlers. -/
theorem SameButWait.same_run {setup setup' : Setup} (h : setup.SameButWait setup')
    (standard : setup.Standard)
    (sequential : setup.program.Sequential ErrorClass.isOrdinary callable alike)
    (o : RunOptions) {s s' : Bench} (same : s.SameButWaits callable alike s')
    (self : alike s'.memory s'.memory)
    (name : String) (g n n' : Nat)
    (ended : (Config.run setup.world.recorded o n (Config.launched (s, []) name g)).Ended o)
    (ended' : (Config.run setup'.world.recorded o n' (Config.launched (s', []) name g)).Ended o) :
    (Config.run setup.world.recorded o n (Config.launched (s, []) name g)).SameRun
        (Config.run setup'.world.recorded o n' (Config.launched (s', []) name g)) ∧
      Bench.SameOutcome
        (Config.run setup.world.recorded o n (Config.launched (s, []) name g)).machine.outer.1
        (Config.run setup'.world.recorded o n'
          (Config.launched (s', []) name g)).machine.outer.1 := by
  obtain ⟨hsame, u, hu, hu'⟩ := Config.same_run (h.follows standard sequential)
    (h.follows_right standard sequential) o same (same.right self) name g n n' ended ended'
  exact ⟨hsame, hu.sameOutcome hu'⟩

end Setup

/-! ### Rehearsals -/

/-- What a root run has ended with is what its last configuration has. -/
theorem Machine.runRoot_initial {σ : Type} (w : World σ) (o : RunOptions) (outer : σ)
    (name : String) (g : Nat) :
    (initial outer).runRoot w o name g =
      ((Config.run w o unboundedSteps (Config.launched outer name g)).ending,
        (Config.run w o unboundedSteps (Config.launched outer name g)).machine) := by
  have hroot : ((initial outer).launch name g).2 = 0 := rfl
  unfold runRoot Config.ending
  dsimp only
  rw [hroot, ← Config.launched]
  generalize Config.run w o unboundedSteps (Config.launched outer name g) = c
  cases c.failure? with
  | some f => rfl
  | none => cases c.machine.get? 0 <;> rfl

namespace Setup

/-- The run that a saga leads to, called on the bench, has come to its end. -/
def Ends (setup : Setup) (o : RunOptions) (s : Bench) (saga : Value) (args : List Value) : Prop :=
  ∀ (g : Nat) (memory : Memory),
    (Script.call setup.program .idle saga args []).run s.memory = (.ok (.generator g), memory) →
    (Config.run setup.world o unboundedSteps
      (Config.launched { s with memory } saga.callName g)).Ended o

/-- Whatever the saga is, it is called on the bench, and run if that makes a generator. -/
theorem run_initial (setup : Setup) (o : RunOptions) (s : Bench)
    (saga : Value) (args : List Value) :
    setup.run o (.initial s) saga args =
      match (Script.call setup.program .idle saga args []).run s.memory with
      | (.error e, memory) => (.error (.exn e), .initial { s with memory })
      | (.ok (.generator g), memory) =>
        let c := Config.run setup.world o unboundedSteps
          (Config.launched { s with memory } saga.callName g)
        (c.ending.map c.machine.outer.memory.shown, c.machine)
      | (.ok _, memory) =>
        (.error (.configuration (saga.callName ++ " must be a generator function")),
          .initial { s with memory }) := by
  have hsize : ¬ (Machine.initial s).registry.size ≠ 0 := fun h => h rfl
  have hview : (Machine.initial s).view = .idle := rfl
  have houter : (Machine.initial s).outer = s := rfl
  unfold run
  rw [if_neg hsize, hview, houter]
  generalize (Script.call setup.program .idle saga args []).run s.memory = called
  obtain ⟨r, memory⟩ := called
  cases r with
  | error e => rfl
  | ok v =>
    cases v with
    | generator g =>
      have hrun := Machine.runRoot_initial setup.world o { s with memory } saga.callName g
      exact congrArg (fun went => (went.1.map went.2.outer.memory.shown, went.2)) hrun
    | _ => rfl

/-- **Setups that plan the same but for when calls are made run a sequential saga to the same end.**
Memories that are alike have to show the same of every value. -/
theorem SameButWait.same_rehearsal {setup setup' : Setup} (h : setup.SameButWait setup')
    (standard : setup.Standard)
    (sequential : setup.program.Sequential ErrorClass.isOrdinary callable alike)
    (o : RunOptions) {s s' : Bench}
    (same : s.SameButWaits callable alike s') (self : alike s'.memory s'.memory)
    (shown : ∀ mem mem', alike mem mem' → mem.shown = mem'.shown) {saga : Value}
    (hsaga : callable saga) (args : List Value) (ended : setup.Ends o s saga args)
    (ended' : setup'.Ends o s' saga args) :
    SameEnd (setup.run o (.initial s) saga args).1 (setup'.run o (.initial s') saga args).1 ∧
      (setup.run o (.initial s) saga args).2.outer.SameOutcome
        (setup'.run o (.initial s') saga args).2.outer ∧
      (setup.run o (.initial s) saga args).2.outer.memory.shown =
        (setup'.run o (.initial s') saga args).2.outer.memory.shown := by
  obtain ⟨answer, state⟩ := sequential.calls .idle args [] hsaga _ _ same.memory
  obtain ⟨_, self'⟩ := sequential.calls .idle args [] hsaga _ _ self
  unfold Ends at ended ended'
  rw [run_initial, run_initial, ← h.program]
  rw [← h.program] at ended'
  generalize (Script.call setup.program .idle saga args []).run s.memory =
    called at answer state ended
  generalize (Script.call setup.program .idle saga args []).run s'.memory =
    called' at answer state self' ended'
  obtain ⟨r, memory⟩ := called
  obtain ⟨r', memory'⟩ := called'
  obtain rfl : r = r' := answer
  have same' : Bench.SameButWaits callable alike { s with memory } { s' with memory := memory' } :=
    { same with memory := state }
  have self'' : Bench.SameButWaits callable alike { s' with memory := memory' }
      { s' with memory := memory' } :=
    same'.right self'
  cases r with
  | error e => exact ⟨.refused (.exn e), same'.sameOutcome self'', shown _ _ state⟩
  | ok v =>
    cases v with
    | generator g =>
      obtain ⟨final, within, written⟩ := ended g memory rfl
      obtain ⟨final', within', written'⟩ := ended' g memory' rfl
      obtain ⟨hend, u, hu, hu'⟩ := Config.same_end (h.follows standard sequential)
        (h.follows_right standard sequential) o same' self'' _ g _ _ final final' within
          within' written written'
      have hshown := (shown _ _ hu.memory).trans (shown _ _ hu'.memory).symm
      refine ⟨?_, hu.sameOutcome hu', hshown⟩
      dsimp only
      rw [hshown]
      exact hend.map _
    | _ => exact ⟨.refused (.configuration _), same'.sameOutcome self'', shown _ _ state⟩

end Setup

/-! ### Testers -/

/-- Testers that differ in nothing but when the calls they expect are made. All predicates they may
ask are callable. -/
structure Tester.SameButWaits (callable : Value → Prop) (t t' : Tester) : Prop where
  saga : t.saga = t'.saga
  calls : t.calls.prompt = t'.calls.prompt
  actions : t.actions = t'.actions
  state : t.state = t'.state
  selectors : t.selectors = t'.selectors
  effective : t.effective = t'.effective
  options : t.options = t'.options
  shouldAssert : t.shouldAssert = t'.shouldAssert
  asksOfCalls : ∀ f ∈ t.calls.predicates, callable f
  asksOfActions : ∀ f ∈ t.actions.predicates, callable f

namespace Tester

theorem SameButWaits.setup {t t' : Tester} (h : t.SameButWaits callable t') (p : Program) :
    t.setup p = t'.setup p := by
  unfold Tester.setup
  rw [h.options, h.state, h.selectors]

theorem SameButWaits.bench {t t' : Tester} (h : t.SameButWaits callable t') (args : List Value)
    (self : alike Memory.empty Memory.empty) :
    (t.bench args).SameButWaits callable alike (t'.bench args) where
  memory := self
  calls := h.calls
  actions := h.actions
  queue := by simp only [Tester.bench, queue, h.effective]
  dispatched := rfl
  asksOfCalls := h.asksOfCalls
  asksOfActions := h.asksOfActions

/-- The report of what is unmet is refused for nothing but an exception. -/
theorem unmet_alike {b : Bench} {f : Failure} (h : unmet b = .error f) : f.Alike f := by
  unfold unmet at h
  dsimp only at h
  split at h
  · cases h
  · cases h
    exact Refusal.failure_alike _
  · cases h
    exact Refusal.failure_alike _

/-- **When the expected calls are made makes no difference to the verdict.** -/
theorem SameButWaits.same_verdict {t t' : Tester} (h : t.SameButWaits callable t') {p : Program}
    (sequential : p.Sequential ErrorClass.isOrdinary callable alike)
    (self : alike Memory.empty Memory.empty)
    (shown : ∀ mem mem', alike mem mem' → mem.shown = mem'.shown)
    (hsaga : callable t.saga) (args : List Value)
    (ended : (t.setup p).Ends t.options (t.bench args) t.saga args)
    (ended' : (t'.setup p).Ends t'.options (t'.bench args) t'.saga args) :
    SameEnd (t.run p args).outcome (t'.run p args).outcome ∧
    (t.run p args).errors = (t'.run p args).errors ∧
      (t.run p args).machine.outer.SameOutcome (t'.run p args).machine.outer := by
  rw [← h.setup, ← h.options, ← h.saga] at ended'
  obtain ⟨hend, houtcome, hshown⟩ := (Setup.SameButWait.refl (t.setup p)).same_rehearsal
    (Setup.standard_of_handlers rfl) sequential t.options
      (h.bench args self) self shown hsaga args ended ended'
  unfold Tester.run
  rw [← h.setup, ← h.options, ← h.saga, ← h.shouldAssert]
  generalize (t.setup p).run t.options (.initial (t.bench args)) t.saga args =
    went at hend houtcome hshown
  generalize (t.setup p).run t.options (.initial (t'.bench args)) t.saga args =
    went' at hend houtcome hshown
  obtain ⟨r, m⟩ := went
  obtain ⟨r', m'⟩ := went'
  have hunmet := houtcome.unmet hshown
  cases hend with
  | escaped e name name' step step' => exact ⟨.escaped e name name' step step', rfl, houtcome⟩
  | refused hf => exact ⟨.refused hf, rfl, houtcome⟩
  | returned v =>
    dsimp only at hunmet ⊢
    rw [hunmet]
    cases hreport : unmet m'.outer with
    | error f => exact ⟨.refused (unmet_alike hreport), rfl, houtcome⟩
    | ok errors =>
      dsimp only
      split
      · exact ⟨.refused (.exn _), rfl, houtcome⟩
      · exact ⟨.returned v, rfl, houtcome⟩

end Tester

/-! ### A saga that catches what a call raises -/

/-- The inner function raises an exception, and the outer one goes on if it may be caught. -/
def rescuing (kind : ErrorClass) : Program :=
  enteringInner [.raise (.exception kind [.const (.text "inside")])] fun enter =>
    .guarded [enter] [⟨[.error .exception], none, [.ret (.const (.text "caught"))]⟩] none

def innerFunction : Value := .function ⟨"inner", .generator⟩

namespace Rescuing

/-- Where a generator of the script stands between resumptions. -/
inductive Stands (kind : ErrorClass) : GeneratorState → Prop
  | raises (env : Env) :
      Stands kind (.fresh env [.raise (.exception kind [.const (.text "inside")])])
  | enters (env : Env) : Stands kind (.fresh env
      [.guarded [.yield none (.effect (.call []) [.const innerFunction])]
        [⟨[.error .exception], none, [.ret (.const (.text "caught"))]⟩] none])
  | waits (env : Env) : Stands kind (.suspended env
      [.receive none, .seq [],
        .guarded [⟨[.error .exception], none, [.ret (.const (.text "caught"))]⟩] none,
        .seq []])
  | ended : Stands kind .finished

def Within (kind : ErrorClass) (mem : Memory) : Prop :=
  ∀ g : Nat, Stands kind (mem.generators[g]?.getD .finished)

/-- What the script responds with. It raises nothing of its own but the exception. -/
inductive Responds (raisable : ErrorClass → Bool) (signal : Signal) : Response → Prop
  | calls : Responds raisable signal (.yielded (.effect (.call innerFunction [] [])))
  | returns (v : Value) : Responds raisable signal (.returned v)
  | fails {e : Exn} (raised : signal.Within raisable → raisable e.kind = true) :
      Responds raisable signal (.raised e)

namespace Within

variable {kind : ErrorClass} {mem : Memory} (h : Within kind mem)
include h

theorem newGenerator (env : Env) {body : List Stmt} (hbody : Stands kind (.fresh env body)) :
    Within kind (mem.newGenerator env body).2 := by
  intro g
  simp only [Memory.newGenerator, Array.getElem?_push]
  split
  · exact hbody
  · exact h g

theorem setGenerator (g : Nat) {state : GeneratorState} (hstate : Stands kind state) :
    Within kind (mem.setGenerator g state) := by
  intro i
  simp only [Memory.setGenerator, Array.getElem?_setIfInBounds]
  split
  · split
    · exact hstate
    · exact .ended
  · exact h i

/-- A generator that has run stands where its body has left it. -/
theorem settled (g : Nat) {state : GeneratorState} (hstate : Stands kind state) :
    Within kind ((mem.setGenerator g .running).setGenerator g state) := by
  have hset := h.setGenerator g hstate
  unfold Memory.setGenerator at hset ⊢
  rwa [Array.setIfInBounds_setIfInBounds]

end Within

variable {kind : ErrorClass} {raisable : ErrorClass → Bool}

/-- An exception leaves a generator of the script, or is replaced by an ordinary one. -/
theorem settle (runtime : raisable .runtime = true) {mem : Memory} {g : Nat}
    (h : Within kind (mem.setGenerator g .finished)) (e : Exn) :
    ∃ e' mem', (settleGenerator g (.raised e)).run mem =
      (.ok (.raised e'), mem') ∧ Within kind mem' ∧
      Responds raisable (.throw e) (.raised e') := by
  by_cases hstop : e.kind = .stop
  · simp only [settleGenerator, leaveGenerator, if_pos hstop]
    exact ⟨⟨.runtime, [.text "generator raised StopIteration"], .script mem.made⟩,
      (mem.setGenerator g .finished).newNumber.2, rfl, h, .fails fun _ => runtime⟩
  · simp only [settleGenerator, leaveGenerator, if_neg hstop]
    exact ⟨e, mem.setGenerator g .finished, rfl, h, .fails id⟩

theorem resumed (hkind : kind = .value ∨ kind = .configuration)
    (hraisable : ∀ c ∈ [kind, .typed, .runtime], raisable c = true)
    {mem : Memory} (h : Within kind mem)
    (g : Nat) (signal : Signal) :
    ∃ r mem', (∀ host : Host, (resumeGenerator host g signal).run mem = (.ok r, mem')) ∧
      Within kind mem' ∧ Responds raisable signal r := by
  have hstate := h g
  have hget : (MonadState.get : Eval Memory).run mem = (.ok mem, mem) := rfl
  have runtime : raisable .runtime = true := hraisable _ (by simp)
  have typed : raisable .typed = true := hraisable _ (by simp)
  unfold resumeGenerator
  simp only [Eval.run_bind, hget]
  generalize mem.generators[g]?.getD .finished = state at hstate
  cases hstate with
  | ended =>
    cases signal with
    | send v => exact ⟨_, _, fun _ => rfl, h, .returns _⟩
    | throw e =>
      dsimp only
      split
      · exact ⟨_, _, fun _ => rfl, h, .returns _⟩
      · exact ⟨_, _, fun _ => rfl, h, .fails id⟩
  | raises env =>
    cases signal with
    | send v =>
      cases v with
      | null =>
        have hraised : raisable kind = true := hraisable _ (by simp)
        rcases hkind with rfl | rfl
        · exact ⟨_, _, fun _ => rfl, h.settled g .ended, .fails fun _ => hraised⟩
        · exact ⟨_, _, fun _ => rfl, h.settled g .ended, .fails fun _ => hraised⟩
      | _ => exact ⟨_, _, fun _ => rfl, h, .fails fun _ => typed⟩
    | throw e =>
      obtain ⟨e', mem', hrun, hmem, hresponds⟩ := settle runtime (h.setGenerator g .ended) e
      exact ⟨_, _, fun _ => hrun, hmem, hresponds⟩
  | enters env =>
    cases signal with
    | send v =>
      cases v with
      | null => exact ⟨_, _, fun _ => rfl, h.settled g (.waits env), .calls⟩
      | _ => exact ⟨_, _, fun _ => rfl, h, .fails fun _ => typed⟩
    | throw e =>
      obtain ⟨e', mem', hrun, hmem, hresponds⟩ := settle runtime (h.setGenerator g .ended) e
      exact ⟨_, _, fun _ => hrun, hmem, hresponds⟩
  | waits env =>
    cases signal with
    | send v => exact ⟨_, _, fun _ => rfl, h.settled g .ended, .returns _⟩
    | throw e =>
      obtain ⟨k, args, origin⟩ := e
      cases k with
      | base => exact ⟨_, _, fun _ => rfl, h.settled g .ended, .fails id⟩
      | interrupt => exact ⟨_, _, fun _ => rfl, h.settled g .ended, .fails id⟩
      | _ => exact ⟨_, _, fun _ => rfl, h.settled g .ended, .returns _⟩

/-- What is sent may be numbered before the script sees it, nothing else. -/
theorem received (signal : Signal) (mem : Memory) :
    ∃ signal' made, (receive signal).run mem = (.ok signal', { mem with made }) ∧
      (signal.Within raisable → signal'.Within raisable) := by
  cases signal with
  | send v => exact ⟨_, _, rfl, id⟩
  | throw e => exact ⟨_, _, rfl, id⟩

theorem Responds.of_within {signal signal' : Signal} {r : Response}
    (within : signal.Within raisable → signal'.Within raisable)
    (h : Responds raisable signal' r) : Responds raisable signal r := by
  cases h with
  | calls => exact .calls
  | returns v => exact .returns v
  | fails raised => exact .fails fun hsignal => raised (within hsignal)

theorem sequential (hkind : kind = .value ∨ kind = .configuration)
    (hraisable : ∀ c ∈ [kind, .typed, .runtime], raisable c = true) :
    (rescuing kind).Sequential raisable (· = innerFunction) fun s u => s = u ∧ Within kind s := by
  have hresume : ∀ {mem : Memory}, Within kind mem → ∀ (g : Nat) (signal : Signal),
      ∃ r mem', (∀ view, Script.resume (rescuing kind) view g signal mem = (r, mem')) ∧
      Within kind mem' ∧
        Responds raisable signal r := by
    intro mem h g signal
    obtain ⟨signal', made, hreceive, within⟩ := received signal mem
    have hmade : Within kind { mem with made } := h
    obtain ⟨r, mem', hrun, hmem, hresponds⟩ := resumed hkind hraisable hmade g signal'
    refine ⟨r, mem', fun view => ?_, hmem, hresponds.of_within within⟩
    have hgenerator : (answer (rescuing kind) view g signal).run mem = (.ok r, mem') := by
      rw [answer, Eval.run_bind, hreceive]
      exact hrun _
    rw [Script.resume, hgenerator]
  constructor
  case numbers =>
    rintro s _ ⟨rfl, h⟩
    exact ⟨rfl, rfl, h⟩
  case resumes =>
    rintro s _ view g signal ⟨rfl, h⟩ _
    obtain ⟨r, mem', hrun, hmem, _⟩ := hresume h g signal
    rw [hrun, hrun]
    exact ⟨rfl, rfl, hmem⟩
  case yields =>
    rintro s _ view g signal x ⟨rfl, h⟩ _ hx
    obtain ⟨r, mem', hrun, _, hresponds⟩ := hresume h g signal
    rw [hrun] at hx
    obtain rfl : r = .yielded x := hx
    cases hresponds
    refine .effect (Or.inl rfl) fun fn hfn => ?_
    exact List.mem_singleton.mp hfn
  case raises =>
    rintro s _ view g signal e ⟨rfl, h⟩ within he
    obtain ⟨r, mem', hrun, _, hresponds⟩ := hresume h g signal
    rw [hrun] at he
    obtain rfl : r = .raised e := he
    cases hresponds with
    | fails raised => exact raised within
  case calls =>
    rintro view _ args kwargs rfl s _ ⟨rfl, h⟩
    exact ⟨rfl, rfl, h.newGenerator _ (.raises _)⟩

/-- The bench on which the outer function has been called. -/
theorem within_calling : Within kind (Bench.calling (rescuing kind) "outer").memory := by
  have hempty : Within kind Memory.empty := fun g => .ended
  exact hempty.newGenerator [] (.enters [])

end Rescuing

/-- The inner function of a script is called for real when the plan says so. -/
def Setup.callingInner (p : Program) (wait : Wait) : Setup where
  program := p
  planner := .table [("inner", { CallPlan.real with wait })]
  selection := ⟨.null, .ofList false [], false⟩
  handlers := ⟨Handling.standard.map fun h => (h.1, some h.2)⟩

namespace Setup.callingInner

/-- The outer function, run to its end. -/
def run (p : Program) (o : RunOptions) (wait : Wait) : Config (Bench × List Exchange) :=
  Config.run (callingInner p wait).world.recorded o 60
    (Config.launched (Bench.calling p "outer", []) "outer" 0)

theorem standard (p : Program) (wait : Wait) : (callingInner p wait).Standard :=
  Setup.standard_of_handlers rfl

theorem sameButWait (p : Program) (wait wait' : Wait) :
    (callingInner p wait).SameButWait (callingInner p wait') :=
  ⟨rfl, .table (.cons ⟨rfl, rfl, rfl, rfl⟩ .nil), rfl, rfl⟩

end Setup.callingInner

theorem Rescuing.calling_sameButWaits {kind : ErrorClass} :
    (Bench.calling (rescuing kind) "outer").SameButWaits (· = innerFunction)
      (fun s u => s = u ∧ Rescuing.Within kind s) (Bench.calling (rescuing kind) "outer") :=
  ⟨⟨rfl, Rescuing.within_calling⟩, rfl, rfl, rfl, rfl, nofun, nofun⟩

/-! ### Deferring calls -/

/-- **Deferring a call does not change a sequential program**, which yields nothing but generators,
calls, delays and effects for the handlers, and raises nothing but exceptions that may be caught.

Two worlds answer the program alike, whatever they are shown of the run and of what is being handled
around it, but for when the calls are to be made that they plan; what they make of effects that it
does not ask for does not matter. Then two runs that end within the step limit, and not over a
report that cannot be written, resume the same generators with the same signals, ask for the same
plans, invoke the same functions and have the same effects handled with the same reactions, all in
the same order; and they end the same way: with the same value, with the same exception escaping the
root, or with the same refusal.

So it is on the bench. Its planners may differ in when calls are to be made, and the standard
handlers answer the script: then the same actions are dispatched and taken, too, and the same calls
and actions counted. -/
theorem deferring_changes_nothing :
    (∀ {σ : Type} {asked : Effect → Prop} {alike : σ → σ → Prop} {v v' w : World σ},
      v.Follows asked w alike → v'.Follows asked w alike →
      ∀ (o : RunOptions) {outer outer' start : σ},
      alike outer start → alike outer' start → ∀ (name : String) (g n n' : Nat),
      let run := Config.run v.recorded o n (Config.launched (outer, []) name g)
      let run' := Config.run v'.recorded o n' (Config.launched (outer', []) name g)
      run.Ended o → run'.Ended o →
        run.SameRun run' ∧ ∃ u, alike run.machine.outer.1 u ∧ alike run'.machine.outer.1 u) ∧
    ∀ {callable : Value → Prop} {alike : Memory → Memory → Prop} {setup setup' : Setup},
      setup.SameButWait setup' → setup.Standard →
      setup.program.Sequential ErrorClass.isOrdinary callable alike →
      ∀ (o : RunOptions) {s s' : Bench}, s.SameButWaits callable alike s' →
      alike s'.memory s'.memory →
      ∀ (name : String) (g n n' : Nat),
      let run := Config.run setup.world.recorded o n (Config.launched (s, []) name g)
      let run' := Config.run setup'.world.recorded o n' (Config.launched (s', []) name g)
      run.Ended o → run'.Ended o → run.SameRun run' ∧
      run.machine.outer.1.SameOutcome run'.machine.outer.1 := by
  constructor
  · intro σ asked alike v v' w hv hv' o outer outer' start same same' name g n
      n' run run' ended ended'
    exact Config.same_run hv hv' o same same' name g n n' ended ended'
  · intro callable alike setup setup' h standard sequential o s s' same self name g n
      n' run run' ended ended'
    exact h.same_run standard sequential o same self name g n n' ended ended'

/-- A call that raises, made at once and made later. -/
theorem deferred_failure_changes_nothing :
    SameEnd (Config.run Playbook.world.recorded .default 30 (Config.launched
        (Playbook.calling .now (.raised ⟨.value, [], .scheduler 0⟩), []) "root" 0)).ending
      (Config.run Playbook.world.recorded .default 30 (Config.launched
        (Playbook.calling (.tick 3) (.raised ⟨.value, [], .scheduler 0⟩), []) "root" 0)).ending ∧
    SameEnd (Setup.callingInner.run (rescuing .value) .default .now).ending
      (Setup.callingInner.run (rescuing .value) .default (.tick 3)).ending := by
  have heedless := Playbook.world_follows ErrorClass.isOrdinary
  have raises : Playbook.Admits ErrorClass.isOrdinary (.raised ⟨.value, [], .scheduler 0⟩) := rfl
  constructor
  · exact (deferring_changes_nothing.1 heedless heedless .default
      (Playbook.calling_alike .now .now _ raises)
      (Playbook.calling_alike (.tick 3) .now _ raises) "root" 0 30 30
        ⟨rfl, by decide +kernel, nofun⟩
      ⟨rfl, by decide +kernel, nofun⟩).1.ending
  · have sequential : (rescuing .value).Sequential ErrorClass.isOrdinary _ _ :=
      Rescuing.sequential (Or.inl rfl) (by decide)
    exact (deferring_changes_nothing.2 (Setup.callingInner.sameButWait _ .now (.tick 3))
      (Setup.callingInner.standard _ _) sequential .default Rescuing.calling_sameButWaits
      ⟨rfl, Rescuing.within_calling⟩ "outer" 0 60 60 ⟨rfl, by decide +kernel, nofun⟩
      ⟨rfl, by decide +kernel, nofun⟩).1.ending

/-- The inner function raises an exception. The outer one is done with it, makes another call, and
raises again what it no longer handles. -/
def relapsing : Program := ⟨[
  ⟨⟨"inner", .plain⟩, [], [.raise (.exception .value [.const (.text "inside")])]⟩,
  ⟨⟨"next", .plain⟩, [], []⟩,
  ⟨⟨"outer", .generator⟩, [],
    [.guarded [.yield none (.effect (.call []) [.const (.function ⟨"inner", .plain⟩)])]
        [⟨[.error .exception], none, []⟩] none,
      .yield none (.effect (.call []) [.const (.function ⟨"next", .plain⟩)]),
      .reraise]⟩]⟩

/-- The inner function returns a number of too many digits. -/
def counting : Program := enteringInner [.ret (.const (.int (Nat.pow 10 4300)))] id

/-- Runs that write what bubbles. -/
def RunOptions.writingBubbles :
    RunOptions := { RunOptions.default with debug := ⟨.unset, .every true, .unset⟩ }

/-- When a call is made can be told in three ways. An exception of the bench's own that tested code
raises may be caught below in the same coroutine, but not by the task that waits for a deferred
call: it ends the run. What the entry of a deferred call has raised is still being handled around
the task that goes on with it. And a trace of the run shows the results of deferred calls, and
cannot show all numbers. -/
theorem deferring_differs :
    ¬ SameEnd (Setup.callingInner.run (rescuing .configuration) .default .now).ending
        (Setup.callingInner.run (rescuing .configuration) .default (.tick 1)).ending ∧
      ¬ SameEnd (Setup.callingInner.run relapsing .default .now).ending
        (Setup.callingInner.run relapsing .default (.tick 1)).ending ∧
      ¬ SameEnd (Setup.callingInner.run counting .writingBubbles .now).ending
        (Setup.callingInner.run counting .writingBubbles (.tick 1)).ending := by
  refine ⟨?_, ?_, ?_⟩
  · have caught :
      (Setup.callingInner.run (rescuing .configuration) .default .now).ending.isOk = true := rfl
    have ended : (Setup.callingInner.run (rescuing .configuration) .default (.tick 1)).ending.isOk =
      false := rfl
    intro same
    rw [same.isOk, ended] at caught
    cases caught
  · obtain ⟨_, _, _, _, stray⟩ : ∃ args origin name step,
        (Setup.callingInner.run relapsing .default .now).ending =
          .error (.harness (.testedCode ⟨.runtime, args, origin⟩ (some 0) name step)) :=
            ⟨_, _, _, _, rfl⟩
    obtain ⟨_, _, _, _, handled⟩ : ∃ args origin name step,
        (Setup.callingInner.run relapsing .default (.tick 1)).ending =
          .error (.harness (.testedCode ⟨.value, args, origin⟩ (some 0) name step)) :=
            ⟨_, _, _, _, rfl⟩
    rw [stray, handled]
    intro same
    cases same with
    | refused alike => cases alike
  · have written : (Setup.callingInner.run counting .writingBubbles .now).ending.isOk =
      true := by decide +kernel
    have refused : (Setup.callingInner.run counting .writingBubbles (.tick 1)).ending.isOk =
      false := by decide +kernel
    intro same
    rw [same.isOk, refused] at written
    cases written

end Rehearsal
