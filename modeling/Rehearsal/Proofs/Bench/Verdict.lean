import Rehearsal.Bench.Tester
import Rehearsal.Proofs.Bench.Keeping
import Rehearsal.Proofs.Engine.Interpreted
import Rehearsal.Proofs.Expect.Unmet

/-!
# What the verdict of a tester counts

The ledgers of a tester change in two places: where a call or a fork is planned, and where an action
is dispatched. Both happen once for each effect that is interpreted, so the ledgers are at all times
the tally of the effects that have been interpreted, and the reports at the end of a run are about
these.
-/
namespace Rehearsal

open Script

namespace Occurrence

def call? : Occurrence → Option Call
  | .called call => some call
  | .dispatched _ => none

def dispatched? : Occurrence → Option Dispatched
  | .called _ => none
  | .dispatched d => some d

end Occurrence

namespace Bench

/-- On the way from the one bench to the other the ledgers have counted all of `xs`, and nothing
else. -/
structure Counts (truth : Value → Value → Bool) (s : Bench) (xs : List Occurrence) (s' : Bench) :
    Prop where
  calls : s'.calls = s.calls.tallied truth (xs.filterMap Occurrence.call?)
  actions : s'.actions.expectations =
    ActionLedger.tallied truth s.actions.expectations (xs.filterMap Occurrence.dispatched?)

/-- The ledgers of the bench can be kept: predicates tell the truth, and expectations go by names
and types. -/
structure Decided (truth : Value → Value → Bool) (p : Program) (s : Bench) : Prop where
  distinct : s.calls.Distinct
  typed : ∀ e ∈ s.actions.expectations, e.Typed
  called : ∀ f ∈ s.calls.predicates, ∀ view v, (Script.accepts p view f v).Gives (truth f v)
  dispatched : ∀ f ∈ s.actions.predicates, ∀ view v, (Script.accepts p view f v).Gives (truth f v)

variable {truth : Value → Value → Bool} {p : Program} {s s' s'' : Bench} {xs ys : List Occurrence}

namespace Counts

theorem of_eq (calls : s'.calls = s.calls)
    (actions : s'.actions.expectations = s.actions.expectations) :
    s.Counts truth [] s' where
  calls := calls.trans (CallLedger.tallied_nil truth _).symm
  actions := actions.trans ((ActionExpectation.credits truth).tally_nil _).symm

theorem refl (s : Bench) : s.Counts truth [] s := of_eq rfl rfl

theorem trans (h : s.Counts truth xs s') (h' : s'.Counts truth ys s'') :
    s.Counts truth (xs ++ ys) s'' where
  calls := by rw [h'.calls, h.calls, List.filterMap_append, CallLedger.tallied_append]
  actions := by
    rw [h'.actions, h.actions, List.filterMap_append]
    exact ((ActionExpectation.credits truth).tally_append ..).symm

theorem decided (h : s.Counts truth xs s') (hs : s.Decided truth p) : s'.Decided truth p where
  distinct := h.calls ▸ hs.distinct.tallied _
  typed := by
    intro e he
    rw [h.actions] at he
    obtain ⟨i, hi, rfl⟩ := List.mem_mapIdx.mp he
    exact hs.typed s.actions.expectations[i] (List.getElem_mem hi)
  called := by
    intro f hf
    rw [h.calls] at hf
    exact hs.called f (CallLedger.mem_predicates_tallied hf)
  dispatched := by
    intro f hf
    obtain ⟨e, he, hf⟩ := List.mem_flatMap.mp hf
    rw [h.actions] at he
    obtain ⟨i, hi, rfl⟩ := List.mem_mapIdx.mp he
    exact hs.dispatched f (List.mem_flatMap.mpr ⟨_, List.getElem_mem hi, hf⟩)

end Counts

end Bench

/-- A report can be made of everything that is unmet. -/
def Bench.Reportable (b : Bench) : Prop :=
  (∀ e ∈ b.actions.expectations, e.unmet = true → b.actions.Reportable b.memory.shown e) ∧
    ∀ e ∈ b.calls.expectations, e.unmet = true → e.Reportable b.memory.shown

/-! ### Acts that count nothing -/

namespace Act

variable {α β : Type} {truth : Value → Value → Bool}

def Idle (truth : Value → Value → Bool) (x : Act α) :
    Prop := ∀ s : Bench, s.Counts truth [] (x.run s).2

/-- What leaves the ledgers alone is counted nowhere. -/
theorem Keeps.idle {x : Act α} (h : x.Keeps fun s => (s.calls, s.actions.expectations)) :
    x.Idle truth :=
  fun s => .of_eq (congrArg Prod.fst (h s)) (congrArg Prod.snd (h s))

/-- A computation of the script that gives a value changes nothing but the memory. -/
theorem run_ofScript_gives {x : Eval α} {a : α} (h : x.Gives a) (s : Bench) :
    ∃ memory, (Act.ofScript x).run s = (.ok a, { s with memory }) :=
  ⟨_, by rw [run_ofScript, h s.memory]; rfl⟩

end Act

/-! ### The two places where something is counted -/

section Counting

variable {truth : Value → Value → Bool} {p : Program} {s : Bench}

/-- **A call is counted when it is planned.** -/
theorem Planner.expected_counts (hs : s.Decided truth p) (view : View)
    (failOnUnconfigured : Bool) (step : Nat)
    (call : Call) (forked : Bool) :
    s.Counts truth [.called call]
      ((expected p view failOnUnconfigured step call forked).run s).2 := by
  have hcounts : ∀ {s' : Bench}, s'.calls = s.calls.tallied truth [call] →
      s'.actions.expectations = s.actions.expectations →
      s.Counts truth [.called call] s' := fun h h' =>
    ⟨h, h'.trans ((ActionExpectation.credits truth).tally_nil _).symm⟩
  unfold expected
  rw [Act.Candid.run_bind, Act.run_get]
  dsimp only
  split
  · obtain ⟨r, hrecord, htally⟩ :=
      hs.distinct.record_gives (fun f hf => hs.called f hf view) call (some step)
    obtain ⟨memory, hrun⟩ := Act.run_ofScript_gives hrecord s
    rw [Act.Candid.run_bind, hrun]
    cases r with
    | error h => exact hcounts htally.symm rfl
    | ok counted =>
      have hcounted : s.Counts truth [.called call] { s with memory, calls := counted.2 } :=
        hcounts htally.symm rfl
      dsimp only
      rw [Act.Candid.run_bind, Act.run_modify]
      exact hcounted.trans
        ((follow_keeps (fun _ _ => rfl) call.name call.fn.isStandIn counted.1).idle _)
  · rename_i hname
    have htally : s.calls.tallied truth [call] = s.calls :=
      hs.distinct.tallied_of_not_contains (by simpa using hname)
    exact (hcounts htally.symm rfl).trans
      ((unconfigured_keeps call (failOnUnconfigured && !forked) step).idle s)

/-- A dispatched action is noted, and then recorded or refused. -/
theorem Handling.dispatch_run {setup : Setup} {view : View} {step : Nat}
    {action : Mapping} {object : Value} {s : Bench}
    {r : Except Failure ActionLedger}
    (h : (s.actions.record (Script.accepts setup.program view) ⟨action, object⟩
      (some step)).Gives r) :
    ∃ memory, (dispatch setup view step action object).run s = match r with
      | .ok actions =>
        (.ok (.advance .null), { s with memory, actions, dispatched := s.dispatched ++ [object] })
      | .error f => (.error f, { s with memory, dispatched := s.dispatched ++ [object] }) := by
  obtain ⟨memory, hrun⟩ :=
    Act.run_ofScript_gives h { s with dispatched := s.dispatched ++ [object] }
  refine ⟨memory, ?_⟩
  unfold dispatch
  rw [Act.Candid.run_bind, Act.run_modify]
  dsimp only
  rw [Act.Candid.run_bind, Act.run_get]
  dsimp only
  rw [Act.Candid.run_bind, hrun]
  cases r <;> rfl

/-- **An action is counted when it is dispatched.** -/
theorem Handling.dispatch_counts {setup : Setup} (hs : s.Decided truth setup.program)
    (view : View) (step : Nat)
    (action : Mapping) (object : Value) :
    s.Counts truth [.dispatched ⟨action, object⟩]
      ((dispatch setup view step action object).run s).2 := by
  obtain ⟨r, hrecord, htally⟩ :=
    ActionLedger.record_gives hs.typed (fun f hf => hs.dispatched f hf view) ⟨action, object⟩
      (some step)
  obtain ⟨memory, hrun⟩ := dispatch_run hrecord
  have hcounts : ∀ {s' : Bench}, s'.calls = s.calls →
      s'.actions.expectations = ActionLedger.tallied truth s.actions.expectations
        [⟨action, object⟩] →
      s.Counts truth [.dispatched ⟨action, object⟩] s' := fun h h' =>
    ⟨h.trans (CallLedger.tallied_nil truth _).symm, h'⟩
  rw [hrun]
  cases r <;> exact hcounts rfl htally.symm

/-- No other effect is counted when it is handled. -/
theorem Handling.react_idle (setup : Setup) (h : Handling) (view : View)
    (context : Context) {e : Effect}
    (other : ∀ action object, e ≠ .put action object) : (react setup h view context e).Idle truth :=
  (react_keeps (fun _ _ => rfl) setup h view context
    (fun action object _ he => (other action object he).elim)
    fun _ _ _ _ _ => rfl).idle

end Counting

/-! ### Runs -/

theorem Machine.machine_runRoot {σ : Type} (w : World σ) (o : RunOptions)
    (m : Machine σ) (name : String)
    (g : Nat) : (m.runRoot w o name g).2 =
      (Config.run w o unboundedSteps (m.launch name g).1).machine := by
  unfold runRoot
  dsimp only
  split
  · rfl
  · split <;> rfl

namespace Setup

/-- The effects that a run interprets, in their order. -/
def effects (setup : Setup) (o : RunOptions) (m : Machine Bench)
    (saga : Value) (args : List Value) :
    List Effect :=
  if m.registry.size ≠ 0 then []
  else
    let (r, memory) := (Script.call setup.program m.view saga args []).run m.outer.memory
    let m := { m with outer := { m.outer with memory } }
    match r with
    | .ok (.generator g) => Config.effects setup.world o unboundedSteps (m.launch saga.callName g).1
    | _ => []

end Setup

namespace Tester

variable {truth : Value → Value → Bool} {t : Tester} {p : Program} {s : Bench}

theorem handler?_put (t : Tester) (p : Program) (action : Mapping) (object : Value) :
    (t.setup p).world.handler? (.put action object) = some fun view context s =>
      (Handling.dispatch (t.setup p) view context.step action object).run s := rfl

/-- **The ledgers count what is on record.** -/
theorem counts_accounts (t : Tester) (p : Program) :
    (t.setup p).world.Accounts Exchange.occurrence? fun s xs s' => s.Decided truth p →
    s.Counts truth xs s' where
  refl s _ := .refl s
  trans h h' hs := (h hs).trans (h' ((h hs).decided hs))
  resume _ _ _ _ _ := .of_eq rfl rfl
  plan view call forked _ hs := Planner.expected_counts hs view _ _ call forked
  invoke _ _ _ _ := .of_eq rfl rfl
  handle := by
    intro e handler hhandler view context s hs
    by_cases hput : ∃ action object, e = .put action object
    · obtain ⟨action, object, rfl⟩ := hput
      cases (t.handler?_put p action object).symm.trans hhandler
      exact Handling.dispatch_counts hs view context.step action object
    · obtain ⟨handling, -, rfl⟩ := Option.map_eq_some_iff.mp hhandler
      have hnone : ∀ answer, (Exchange.handled e context answer).occurrence? =
          none := fun answer => by
        cases e with
        | put action object => exact (hput ⟨action, object, rfl⟩).elim
        | _ => rfl
      rw [hnone]
      exact Handling.react_idle _ handling view context
        (fun action object he => hput ⟨action, object, he⟩) s

/-- From any configuration the ledgers count the effects that are interpreted. -/
theorem counts_run (t : Tester) (p : Program) (o : RunOptions) (c : Config Bench)
    (hs : c.machine.outer.Decided truth p) (n : Nat) :
    c.machine.outer.Counts truth
      ((Config.effects (t.setup p).world o n c).filterMap Effect.occurrence?)
      (Config.run (t.setup p).world o n c).machine.outer := by
  have hoccurrences := @Config.occurrences_run _ (t.setup p).world o
    (fun action object => by rw [t.handler?_put]; rfl) n c.withRecord
  rw [Config.effects_recorded] at hoccurrences
  exact (congrArg (fun xs => c.machine.outer.Counts truth xs _) hoccurrences).mp
    ((t.counts_accounts p).run o c n hs)

/-- The effects that a run of the tester interprets, in their order. -/
def effects (t : Tester) (p : Program) (args : List Value) : List Effect :=
  (t.setup p).effects t.options (.initial (t.bench args)) t.saga args

/-- **At the end of a run the ledgers have counted the effects that were interpreted.** -/
theorem run_counts (t : Tester) (p : Program) (args : List Value)
    (hs : (t.bench args).Decided truth p) :
    (t.bench args).Counts truth ((t.effects p args).filterMap Effect.occurrence?)
      ((t.setup p).run t.options (.initial (t.bench args)) t.saga args).2.outer := by
  have hsize : ¬ (Machine.initial (t.bench args)).registry.size ≠ 0 := fun h => h rfl
  unfold effects Setup.effects Setup.run
  rw [if_neg hsize, if_neg hsize]
  generalize (Script.call (t.setup p).program _ t.saga args []).run _ = called
  obtain ⟨r, memory⟩ := called
  have hmemory : (t.bench args).Counts truth [] { t.bench args with memory } := .of_eq rfl rfl
  cases r with
  | error e => exact hmemory
  | ok v =>
    cases v with
    | generator g =>
      have hrun := t.counts_run p t.options
        (Machine.launch { Machine.initial (t.bench args) with outer :=
          { t.bench args with memory } }
          t.saga.callName g).1 (hmemory.decided hs) unboundedSteps
      dsimp only
      rw [Machine.machine_runRoot]
      exact hmemory.trans hrun
    | _ => exact hmemory

/-- A configured tester has received nothing. -/
theorem ofNamed_ensures (saga : Value) {given : List (String × Value)}
    (distinct : ∀ m, given.lookup "expected_calls" = some (.dict m) → m.Distinct) :
    Ensures (ofNamed saga given) fun t =>
      (t.calls.Fresh ∧ t.calls.Distinct) ∧ ∀ e ∈ t.actions.expectations, e.received = [] := by
  have hcalls : ∀ m, (given.lookup "expected_calls").getD .null = .dict m → m.Distinct := by
    intro m hm
    cases hlookup : given.lookup "expected_calls" with
    | none =>
      rw [hlookup] at hm
      cases hm
    | some v =>
      rw [hlookup] at hm
      obtain rfl : v = .dict m := hm
      exact distinct m hlookup
  unfold ofNamed
  dsimp only
  split
  · exact .bind (.error _) fun _ (h : False) => h.elim
  · exact .bind (.any _) fun _ _ => .bind (.any _) fun _ _ => .bind (.any _) fun _ _ =>
      .bind (.any _) fun _ _ =>
      .bind (CallLedger.ofValue_ensures hcalls) fun calls hfresh =>
        .bind (ActionLedger.ofValue_ensures _) fun actions hactions =>
          .bind (.any _) fun _ _ => .bind (.any _) fun _ _ => .pure ⟨hfresh, hactions⟩

theorem machine_run (t : Tester) (p : Program) (args : List Value) :
    (t.run p args).machine =
      ((t.setup p).run t.options (.initial (t.bench args)) t.saga args).2 := by
  unfold run
  dsimp only
  split
  · rfl
  · split
    · rfl
    · split <;> rfl

/-- What is unmet is reported where all of that can be written, and refused otherwise. -/
theorem unmet_cases {b : Bench} (typed : ∀ e ∈ b.actions.expectations, e.Typed) :
    (b.Reportable ∧ ∃ actions calls, b.actions.unmetMessages b.memory.shown = .ok actions ∧
      b.calls.unmetMessages b.memory.shown = .ok calls ∧ unmet b = .ok (actions ++ calls)) ∨
    ¬ b.Reportable ∧ unmet b = .error (longRefusal none).failure := by
  unfold Bench.Reportable unmet
  dsimp only
  rw [← ActionLedger.unmetMessages_ok_iff, ← CallLedger.unmetMessages_ok_iff]
  cases hactions : b.actions.unmetMessages b.memory.shown with
  | error r =>
    obtain rfl := ActionLedger.eq_of_unmetMessages_error typed hactions
    exact .inr ⟨fun ⟨⟨_, h⟩, _⟩ => (nomatch h), rfl⟩
  | ok actions =>
    cases hcalls : b.calls.unmetMessages b.memory.shown with
    | error r =>
      obtain rfl := CallLedger.eq_of_unmetMessages_error hcalls
      exact .inr ⟨fun ⟨_, _, h⟩ => (nomatch h), rfl⟩
    | ok calls => exact .inl ⟨⟨⟨actions, rfl⟩, calls, rfl⟩, actions, calls, rfl, rfl, rfl⟩

/-- A run that is completed ends with the refusal of reports that cannot be made. -/
theorem run_unreported (t : Tester) {p : Program} {args : List Value} {v : Value} {f : Failure}
    (completed : ((t.setup p).run t.options (.initial (t.bench args)) t.saga args).1 = .ok v)
    (h : unmet (t.run p args).machine.outer = .error f) :
    (t.run p args).errors = [] ∧ (t.run p args).outcome = .error f := by
  rw [machine_run] at h
  unfold run
  dsimp only
  rw [completed]
  dsimp only
  rw [h]
  exact ⟨rfl, rfl⟩

/-- A run that is completed ends with the reports of what is unmet. -/
theorem run_completed (t : Tester) {p : Program} {args : List Value} {v : Value}
    {errors : List String}
    (completed : ((t.setup p).run t.options (.initial (t.bench args)) t.saga args).1 = .ok v)
    (h : unmet (t.run p args).machine.outer = .ok errors) :
    (t.run p args).errors = errors ∧ (t.run p args).outcome =
      if t.shouldAssert && !errors.isEmpty then .error (verdict errors) else .ok v := by
  rw [machine_run] at h
  have hrun : t.run p args =
      if t.shouldAssert && !errors.isEmpty then
        ⟨.error (verdict errors),
          ((t.setup p).run t.options (.initial (t.bench args)) t.saga args).2, v, errors⟩
      else ⟨.ok v, ((t.setup p).run t.options (.initial (t.bench args)) t.saga args).2, v,
          errors⟩ := by
    unfold run
    dsimp only
    rw [completed]
    dsimp only
    rw [h]
  rw [hrun]
  split
  · exact ⟨rfl, rfl⟩
  · exact ⟨rfl, rfl⟩

end Tester

/-! ### The verdict -/

namespace Effect

/-- The call that a call or a fork asks for. -/
def call? : Effect → Option Call
  | .call fn args kwargs | .fork fn args kwargs _ => some ⟨fn, args, kwargs⟩
  | _ => none

/-- The action that is dispatched. -/
def dispatched? : Effect → Option Dispatched
  | .put action object => some ⟨action, object⟩
  | _ => none

theorem calls_of_occurrences (effects : List Effect) :
    (effects.filterMap occurrence?).filterMap Occurrence.call? = effects.filterMap call? := by
  rw [List.filterMap_filterMap]
  exact congrArg (List.filterMap · effects) (funext fun e => by cases e <;> rfl)

theorem actions_of_occurrences (effects : List Effect) :
    (effects.filterMap occurrence?).filterMap Occurrence.dispatched? =
      effects.filterMap dispatched? := by
  rw [List.filterMap_filterMap]
  exact congrArg (List.filterMap · effects) (funext fun e => by cases e <;> rfl)

end Effect

/-- Work is called once and forked once, and then it is done. -/
def working : Program := ⟨[
  ⟨⟨"accepting", .plain⟩, ["v"], [.ret (.const (.bool true))]⟩,
  ⟨⟨"saga", .generator⟩, [],
    [.yield none (.const (.effect (.gather (.listed
      [.effect (.call (.function ⟨"work", .plain⟩) [.int 1] []),
       .effect (.fork (.function ⟨"work", .plain⟩) [.int 2] [] false)])))),
     .yield none (.effect (.fields .put)
       [.dict [(.const (.text "type"), .const (.text "done"))]])]⟩]⟩

/-- Work on one is expected once, other work at least once, and also that it is done. -/
def expectingWork : List (String × Value) := [
  ("expected_calls", .list [
    .dict ⟨false,
      [(.text "name", .text "work"), (.text "params", .list [.int 1]), (.text "times", .int 1)]⟩,
    .dict ⟨false, [(.text "name", .text "work"),
      (.text "params", .list [.placeholder (.satisfying (.function ⟨"accepting", .plain⟩))])]⟩]),
  ("expected_actions", .list [.dict ⟨false, [(.text "type", .text "done")]⟩])]

def workTester : Tester where
  saga := .function ⟨"saga", .generator⟩
  calls := ⟨[(.text "work",
    [⟨.text "work", some [.int 1], some 1, .null, none, false, .now, []⟩,
     ⟨.text "work", some [.placeholder (.satisfying (.function ⟨"accepting", .plain⟩))], none,
       .null, none,
      false, .now, []⟩])]⟩
  actions := ⟨[⟨some (.text "done"), none, none, true, []⟩], []⟩
  state := .null
  selectors := .null
  effective := []
  options := RunOptions.default
  shouldAssert := true

/-- Work on a number is called once. -/
def workingOn (n : Int) : Program := ⟨[
  ⟨⟨"saga", .generator⟩, [],
    [.yield none (.const (.effect (.call (.function ⟨"work", .plain⟩) [.int n] [])))]⟩]⟩

/-- Work is expected twice. -/
def twiceTester : Tester where
  saga := .function ⟨"saga", .generator⟩
  calls := ⟨[(.text "work", [⟨.text "work", none, some 2, .null, none, false, .now, []⟩])]⟩
  actions := .empty
  state := .null
  selectors := .null
  effective := []
  options := RunOptions.default
  shouldAssert := true

end Rehearsal
