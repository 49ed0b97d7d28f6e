import Rehearsal.Bench.Tester
import Rehearsal.Proofs.Bench.Keeping
import Rehearsal.Proofs.Engine.Deferring
import Rehearsal.Proofs.Expect.Tally

/-!
# Planners that differ in when calls are made

Asked about the same calls, such planners make the same plans but for the time of the calls, and the
standard handlers have no part in it. So the bench answers a sequential script in the same way with
either of them.
-/
namespace Rehearsal

open Script

/-! ### Ledgers whose calls are all made at once -/

/-- The expectation of a call that is made at once. -/
def CallExpectation.prompt (e : CallExpectation) : CallExpectation := { e with wait := .now }

namespace CallLedger

def prompt (c : CallLedger) : CallLedger := ⟨c.groups.map fun g => (g.1, g.2.map (·.prompt))⟩

variable {c c' : CallLedger} {es es' : List CallExpectation}

theorem group?_prompt (c : CallLedger) (name : String) :
    c.prompt.group? name = (c.group? name).map fun es => es.map (·.prompt) := by
  unfold group? prompt
  rw [List.find?_map, Option.map_map, Option.map_map]
  rfl

theorem contains_prompt (c : CallLedger) (name : String) :
    c.prompt.contains name = c.contains name := by
  rw [contains, group?_prompt, Option.isSome_map]
  rfl

theorem getD_group?_prompt (c : CallLedger) (name : String) :
    (c.prompt.group? name).getD [] = ((c.group? name).getD []).map (·.prompt) := by
  rw [group?_prompt]
  cases c.group? name <;> rfl

theorem putGroup_prompt (c : CallLedger) (name : String) (es : List CallExpectation) :
    (c.putGroup name es).prompt = c.prompt.putGroup name (es.map (·.prompt)) := by
  simp only [putGroup, prompt, List.map_map, mk.injEq]
  refine List.map_congr_left fun g _ => ?_
  dsimp only [Function.comp_apply]
  split <;> rfl

theorem expectations_prompt (c : CallLedger) :
    c.prompt.expectations = c.expectations.map (·.prompt) := by
  simp only [expectations, prompt, List.flatMap_map, List.map_flatMap]

/-- The reports do not say when a call was to be made. -/
theorem unmetMessages_prompt (look : Value → Value) (c : CallLedger) :
    c.prompt.unmetMessages look = c.unmetMessages look := by
  unfold unmetMessages
  rw [expectations_prompt, List.filter_map, List.mapM_map]
  rfl

theorem predicates_prompt (c : CallLedger) : c.prompt.predicates = c.predicates := by
  simp only [predicates, prompt, List.flatMap_map]
  rfl

theorem unmatched_prompt (name : String) (args : List Value)
    (es : List CallExpectation) (step : Option Nat) :
    unmatched name args (es.map (·.prompt)) step = unmatched name args es step := by
  simp only [unmatched, List.map_map, List.any_map]
  rfl

/-- A group whose expectations ask nothing new may be put in the place of another. -/
theorem mem_predicates_putGroup {name : String} {callable : Value → Prop}
    (hc : ∀ f ∈ c.predicates, callable f) (hes : ∀ e ∈ es, ∀ f ∈ e.predicates, callable f) :
    ∀ f ∈ (c.putGroup name es).predicates, callable f := by
  intro f hf
  obtain ⟨g, hg, hf⟩ := List.mem_flatMap.mp hf
  obtain ⟨g', hg', rfl⟩ := List.mem_map.mp hg
  split at hf
  · obtain ⟨e, he, hf⟩ := List.mem_flatMap.mp hf
    exact hes e he f hf
  · exact hc f (List.mem_flatMap.mpr ⟨g', hg', hf⟩)

end CallLedger

/-! ### What counting leaves of the predicates -/

/-- Counting a call changes no parameters. -/
theorem CallLedger.countFirst_yields (holds : Value → Value → Eval Bool) (args : List Value)
    (es : List CallExpectation) :
    (countFirst holds args es).Yields fun found => ∀ e es', found = some (e, es') →
      es'.map (·.params) = es.map (·.params) := by
  induction es with
  | nil => exact .pure nofun
  | cons e es ih =>
    refine .bind _ fun matched => ?_
    split
    · refine .pure ?_
      rintro _ _ ⟨⟩
      rfl
    · refine .bind_of ih fun found hfound => .pure ?_
      intro e' es' hsome
      obtain ⟨⟨e', es'⟩, hfirst, ⟨⟩⟩ := Option.map_eq_some_iff.mp hsome
      rw [List.map_cons, List.map_cons, hfound _ _ hfirst]

/-- Counting an action changes no expected actions. -/
theorem ActionLedger.countFirst_yields (holds : Value → Value → Eval Bool) (d : Dispatched)
    (es : List ActionExpectation) :
    (countFirst holds d es).Yields fun found => ∀ es', found = .ok (some es') →
      es'.map (·.action) = es.map (·.action) := by
  induction es with
  | nil => exact .pure nofun
  | cons e es ih =>
    refine .bind _ fun accepted => ?_
    split
    · exact .pure nofun
    · refine .pure ?_
      rintro _ ⟨⟩
      rfl
    · refine .bind_of ih fun found hfound => .pure ?_
      intro es' hsome
      cases found with
      | error r => cases hsome
      | ok found =>
        obtain ⟨es', rfl, rfl⟩ := Option.map_eq_some_iff.mp (Except.ok.inj hsome)
        rw [List.map_cons, List.map_cons, hfound _ rfl]

/-! ### Computations that go along with each other -/

namespace Script.Eval

variable {α β γ δ : Type} {alike : Memory → Memory → Prop}

/-- From memories that are alike the computations raise the same exception, or yield what `p`
relates, and they leave memories that are alike. -/
def Follows (alike : Memory → Memory → Prop) (x : Eval α) (y : Eval β) (p : α → β → Prop) : Prop :=
  ∀ s u, alike s u →
    Agree p ((x.run s).1.mapError .exn) ((y.run u).1.mapError .exn) ∧ alike (x.run s).2 (y.run u).2

namespace Follows

variable {p : α → β → Prop} {q : γ → δ → Prop} {x : Eval α} {y : Eval β}

theorem pure {a : α} {b : β} (h : p a b) : Follows alike (Pure.pure a) (Pure.pure b) p :=
  fun _ _ same => ⟨.ok h, same⟩

theorem of_matches {x y : Eval α} (h : ∀ s u, alike s u → Matches alike (x.run s) (y.run u)) :
    Follows alike x y Eq := by
  intro s u same
  obtain ⟨answer, state⟩ := h s u same
  refine ⟨?_, state⟩
  rw [answer]
  cases (y.run u).1 with
  | ok a => exact .ok rfl
  | error e => exact .error (.exn e)

theorem bind (hx : Follows alike x y p) {f : α → Eval γ} {g : β → Eval δ}
    (hf : ∀ a b, p a b → Follows alike (f a) (g b) q) : Follows alike (x >>= f) (y >>= g) q := by
  intro s u same
  obtain ⟨answer, state⟩ := hx s u same
  rw [run_bind, run_bind]
  generalize x.run s = went at answer state
  generalize y.run u = went' at answer state
  obtain ⟨r, s'⟩ := went
  obtain ⟨r', u'⟩ := went'
  cases r with
  | ok a =>
    cases r' with
    | ok b =>
      cases answer with
      | ok h => exact hf a b h s' u' state
    | error e' => cases answer
  | error e =>
    cases r' with
    | ok b => cases answer
    | error e' =>
      cases answer with
      | error h =>
        cases h
        exact ⟨.error (.exn e), state⟩

/-- What is known of the one outcome may be used of both. -/
theorem yielding {P : α → Prop} (hx : Follows alike x y p) (hP : x.Yields P) :
    Follows alike x y fun a b => p a b ∧ P a := by
  intro s u same
  obtain ⟨answer, state⟩ := hx s u same
  have hvalue := hP s
  refine ⟨?_, state⟩
  generalize (x.run s).1 = r at answer hvalue
  generalize (y.run u).1 = r' at answer
  cases r with
  | ok a =>
    cases r' with
    | ok b =>
      cases answer with
      | ok h => exact .ok ⟨h, hvalue a rfl⟩
    | error e' => cases answer
  | error e =>
    cases r' with
    | ok b => cases answer
    | error e' =>
      cases answer with
      | error h => exact .error h

def echo (alike : Memory → Memory → Prop) : Echo Eval Eval where
  Rel x y := Follows alike x y Eq
  pure _ := .pure rfl
  bind hx hf := hx.bind fun a _ h => h ▸ hf a

/-- A new exception takes nothing from the memory but its number. -/
theorem newException (numbers : ∀ s u, alike s u → Matches alike s.newNumber u.newNumber)
    (kind : ErrorClass)
    (args : List Value) : Follows alike (newException kind args) (newException kind args) Eq := by
  refine of_matches fun s u same => ?_
  obtain ⟨answer, state⟩ := numbers s u same
  unfold Eval.newException
  cases kind.arguments args with
  | ok args =>
    exact ⟨congrArg (fun k => (.ok ⟨kind, args, .script k⟩ : Except Exn Exn)) answer, state⟩
  | error r =>
    exact ⟨congrArg (fun k => (.error (r.at (.script k)) : Except Exn Exn)) answer, state⟩

end Follows

end Script.Eval

namespace Act

variable {α β γ δ : Type} {R : Bench → Bench → Prop}

/-- From benches that `R` relates the computations fail alike, or yield what `p` relates, and they
leave benches that `R` relates. -/
def Follows (R : Bench → Bench → Prop) (x : Act α) (y : Act β) (p : α → β → Prop) : Prop :=
  ∀ s u, R s u → Agree p (x.run s).1 (y.run u).1 ∧ R (x.run s).2 (y.run u).2

namespace Follows

variable {p : α → β → Prop} {q : γ → δ → Prop} {x : Act α} {y : Act β}

theorem pure {a : α} {b : β} (h : p a b) : Follows R (Pure.pure a) (Pure.pure b) p :=
  fun _ _ related => ⟨.ok h, related⟩

theorem fail {f f' : Failure} (h : f.Alike f') :
    Follows R (MonadExcept.throw f : Act α) (MonadExcept.throw f' : Act β) p :=
  fun _ _ related => ⟨.error h, related⟩

theorem get : Follows R (MonadState.get : Act Bench) MonadState.get R :=
  fun _ _ related => ⟨.ok related, related⟩

theorem modify {f g : Bench → Bench} (h : ∀ s u, R s u → R (f s) (g u)) :
    Follows R (MonadState.modifyGet fun s => ((), f s) : Act Unit)
      (MonadState.modifyGet fun s => ((), g s)) fun _ _ => True :=
  fun s u related => ⟨.ok trivial, h s u related⟩

theorem bind (hx : x.Follows R y p) {f : α → Act γ} {g : β → Act δ}
    (hf : ∀ a b, p a b → (f a).Follows R (g b) q) : Follows R (x >>= f) (y >>= g) q := by
  intro s u related
  obtain ⟨answer, state⟩ := hx s u related
  rw [Candid.run_bind, Candid.run_bind]
  generalize x.run s = went at answer state
  generalize y.run u = went' at answer state
  obtain ⟨r, s'⟩ := went
  obtain ⟨r', u'⟩ := went'
  cases answer with
  | ok h => exact hf _ _ h s' u' state
  | error h => exact ⟨.error h, state⟩

end Follows

end Act

/-! ### Sequential scripts -/

def Effect.functions : Effect → List Value
  | .call fn _ _ => [fn]
  | .select selector _ => [selector]
  | .take pattern | .watch _ pattern => pattern.predicates
  | _ => []

def Effect.CallsOnly (callable : Value → Prop) (e : Effect) :
    Prop := ∀ fn ∈ e.functions, callable fn

/-- The script does the same in memories that are alike, whatever it is shown of the run. Its
generators yield what a sequential program does, having nothing called but what is callable, and
raise exceptions of the given classes only. -/
structure Script.Program.Sequential (p : Program) (raisable : ErrorClass → Bool)
    (callable : Value → Prop)
    (alike : Memory → Memory → Prop) : Prop where
  numbers : ∀ s u, alike s u → Matches alike s.newNumber u.newNumber
  resumes : ∀ {s u : Memory} (view : View) (g : Nat) {signal : Signal}, alike s u →
    signal.Within raisable →
    Matches alike (resume p view g signal s) (resume p .idle g signal u)
  yields : ∀ {s u : Memory} (view : View) (g : Nat) {signal : Signal} {x : Value}, alike s u →
    signal.Within raisable → (resume p view g signal s).1 = .yielded x →
    x.Sequential (Effect.CallsOnly callable)
  raises : ∀ {s u : Memory} (view : View) (g : Nat) {signal : Signal} {e : Exn}, alike s u →
    signal.Within raisable → (resume p view g signal s).1 = .raised e → raisable e.kind = true
  calls : ∀ (view : View) {fn : Value} (args : List Value) (kwargs : List (String × Value)),
    callable fn →
    ∀ s u, alike s u →
    Matches alike ((call p view fn args kwargs).run s) ((call p .idle fn args kwargs).run u)

variable {raisable : ErrorClass → Bool} {callable : Value → Prop} {alike : Memory → Memory → Prop}

/-- Benches that differ in nothing but when calls are to be made, and in what the script cannot
tell. All predicates they may ask are callable. -/
structure Bench.SameButWaits (callable : Value → Prop) (alike : Memory → Memory → Prop)
    (s u : Bench) : Prop where
  memory : alike s.memory u.memory
  calls : s.calls.prompt = u.calls.prompt
  actions : s.actions = u.actions
  queue : s.queue = u.queue
  dispatched : s.dispatched = u.dispatched
  asksOfCalls : ∀ f ∈ s.calls.predicates, callable f
  asksOfActions : ∀ f ∈ s.actions.predicates, callable f

namespace Act.Follows

variable {α β : Type} {p : α → β → Prop}

theorem attempt {x : Eval α} {y : Eval β} (h : x.Follows alike y p) :
    (Act.attempt x).Follows (Bench.SameButWaits callable alike) (Act.attempt y)
      fun r r' => Agree p (r.mapError .exn) (r'.mapError .exn) := by
  intro s u same
  obtain ⟨answer, state⟩ := h s.memory u.memory same.memory
  exact ⟨.ok answer, { same with memory := state }⟩

theorem ofScript {x : Eval α} {y : Eval β} (h : x.Follows alike y p) :
    (Act.ofScript x).Follows (Bench.SameButWaits callable alike) (Act.ofScript y) p := by
  intro s u same
  obtain ⟨answer, state⟩ := h s.memory u.memory same.memory
  rw [run_ofScript, run_ofScript]
  exact ⟨answer, { same with memory := state }⟩

end Act.Follows

namespace Script.Program.Sequential

variable {p : Program} (sequential : p.Sequential raisable callable alike)
include sequential

/-- A callable predicate says the same whatever it is shown of the run. -/
theorem accepts (view : View) {f : Value} (hf : callable f) (v : Value) :
    (Script.accepts p view f v).Follows alike (Script.accepts p .idle f v) Eq :=
  (Eval.Follows.of_matches (sequential.calls view [v] [] hf)).bind fun _ _ h =>
    .pure (congrArg Value.truthy h)

end Script.Program.Sequential

/-! ### Planning -/

section Planning

variable {holds holds' : Value → Value → Eval Bool}
    {es es' : List CallExpectation} {c c' : CallLedger}

/-- A call counts towards the same expectation. -/
theorem CallLedger.countFirst_follows (hes : es.map (·.prompt) = es'.map (·.prompt))
    (asked : ∀ e ∈ es, ∀ f ∈ e.predicates, ∀ v, (holds f v).Follows alike (holds' f v) Eq)
    (args : List Value) :
    (countFirst holds args es).Follows alike (countFirst holds' args es') fun found found' =>
      found.map (fun r => (r.1.prompt, r.2.map (·.prompt))) =
        found'.map fun r => (r.1.prompt, r.2.map (·.prompt)) := by
  induction es generalizing es' with
  | nil =>
    cases es' with
    | nil => exact .pure rfl
    | cons e' es' => cases hes
  | cons e es ih =>
    cases es' with
    | nil => cases hes
    | cons e' es' =>
      obtain ⟨he, hes⟩ : e.prompt = e'.prompt ∧
        es.map (·.prompt) = es'.map (·.prompt) := List.cons.inj hes
      have hparams : e.params = e'.params := (congrArg CallExpectation.params he :)
      have hfirst := (Eval.Follows.echo alike).paramsMatch (asked e (List.mem_cons_self ..)) args
      rw [countFirst, countFirst, ← hparams]
      refine Eval.Follows.bind hfirst ?_
      rintro matched _ rfl
      cases matched with
      | true =>
        have hrecord : (e.record args).prompt = (e'.record args).prompt :=
          (congrArg (CallExpectation.record · args) he :)
        refine .pure ?_
        simp only [Option.map_some, List.map_cons, hrecord, hes]
      | false =>
        refine (ih hes fun e he => asked e (List.mem_cons_of_mem _ he)).bind fun found found' h =>
          .pure ?_
        cases found with
        | none =>
          cases found' with
          | none => rfl
          | some r' => cases h
        | some r =>
          cases found' with
          | none => cases h
          | some r' =>
            obtain ⟨hr, hrest⟩ := Prod.mk.inj (Option.some.inj h)
            simp only [Option.map_some, List.map_cons, he, hr, hrest]

/-- Calls that are recorded alike: they count towards the same expectation, or are refused with the
same message. -/
inductive CallLedger.Recorded (callable : Value → Prop) :
    Except Failure (CallExpectation × CallLedger) →
    Except Failure (CallExpectation × CallLedger) → Prop
  | counted {e e' : CallExpectation} {c c' : CallLedger} (expectation : e.prompt = e'.prompt)
      (ledger : c.prompt = c'.prompt) (asks : ∀ f ∈ c.predicates, callable f) :
      Recorded callable (.ok (e, c)) (.ok (e', c'))
  | refused {f f' : Failure} (same : f.Alike f') : Recorded callable (.error f) (.error f')

theorem CallLedger.record_follows (hc : c.prompt = c'.prompt)
    (callables : ∀ f ∈ c.predicates, callable f)
    (asked : ∀ f, callable f → ∀ v, (holds f v).Follows alike (holds' f v) Eq) (name : String)
    (args : List Value) (step step' : Option Nat) :
    (c.record holds name args step).Follows alike (c'.record holds' name args step')
      (Recorded callable) := by
  have hes : ((c.group? name).getD []).map (·.prompt) =
      ((c'.group? name).getD []).map (·.prompt) := by
    rw [← getD_group?_prompt, ← getD_group?_prompt, hc]
  have hcallable : ∀ e ∈ (c.group? name).getD [], ∀ f ∈ e.predicates, callable f := fun e he f hf =>
    callables f (mem_predicates_of_group he hf)
  have hcount := countFirst_follows hes (fun e he f hf => asked f (hcallable e he f hf)) args
  refine (hcount.yielding (countFirst_yields holds args _)).bind fun found found' h => ?_
  obtain ⟨hsame, hparams⟩ := h
  cases found with
  | none =>
    cases found' with
    | some r' => cases hsame
    | none =>
      refine .pure (.refused ?_)
      rw [← unmatched_prompt _ _ ((c.group? name).getD []), hes, unmatched_prompt]
      exact .reporting _ (.unmatched ..)
  | some r =>
    cases found' with
    | none => cases hsame
    | some r' =>
      obtain ⟨e, es⟩ := r
      obtain ⟨e', es'⟩ := r'
      obtain ⟨he, hes'⟩ := Prod.mk.inj (Option.some.inj hsame)
      refine .pure (.counted he ?_ (mem_predicates_putGroup callables fun x hx f hf => ?_))
      · rw [putGroup_prompt, putGroup_prompt, hc, hes']
      · -- the expectation asks what it has asked before
        have hmem : x.params ∈ ((c.group? name).getD []).map (·.params) :=
          hparams e es rfl ▸ List.mem_map_of_mem hx
        obtain ⟨y, hy, hyx⟩ := List.mem_map.mp hmem
        refine hcallable y hy f ?_
        rw [CallExpectation.predicates, hyx]
        exact hf

/-- Planners that differ in nothing but when calls are made. What the ledgers of a bench say of that
is not part of the planner. -/
inductive Planner.SameButWait : Planner → Planner → Prop
  | real : SameButWait .real .real
  | table {plans plans' : List (String × CallPlan)}
      (same : List.Forall₂ (fun e e' => e.1 = e'.1 ∧ e.2.SameButWait e'.2) plans plans') :
      SameButWait (.table plans) (.table plans')
  | expecting (failOnUnconfigured countsSteps : Bool) :
      SameButWait (.expecting failOnUnconfigured countsSteps)
        (.expecting failOnUnconfigured countsSteps)

/-- Setups that differ in nothing but their planners, and these in nothing but when calls are made.
-/
structure Setup.SameButWait (setup setup' : Setup) : Prop where
  program : setup.program = setup'.program
  planner : setup.planner.SameButWait setup'.planner
  selection : setup.selection = setup'.selection
  handlers : setup.handlers = setup'.handlers

protected theorem CallPlan.SameButWait.refl (plan : CallPlan) :
    plan.SameButWait plan := ⟨rfl, rfl, rfl⟩

theorem Planner.SameButWait.refl (planner : Planner) : planner.SameButWait planner := by
  cases planner with
  | real => exact .real
  | table plans => exact .table (List.forall₂_same.mpr fun e _ => ⟨rfl, .refl e.2⟩)
  | expecting failOnUnconfigured countsSteps => exact .expecting ..

theorem Setup.SameButWait.refl (setup : Setup) : setup.SameButWait setup := ⟨rfl, .refl _, rfl, rfl⟩

namespace Planner

/-- Tables that plan the same calls, but for when they are made, plan them alike. -/
theorem lookup_sameButWait {plans plans' : List (String × CallPlan)}
    (same : List.Forall₂ (fun e e' => e.1 = e'.1 ∧ e.2.SameButWait e'.2) plans plans')
    (name : String) :
    ((plans.lookup name).getD .real).SameButWait ((plans'.lookup name).getD .real) := by
  induction same with
  | nil => exact .refl _
  | @cons e e' plans plans' h _ ih =>
    obtain ⟨key, plan⟩ := e
    obtain ⟨key', plan'⟩ := e'
    obtain ⟨rfl, hplan⟩ := h
    rw [List.lookup_cons, List.lookup_cons]
    cases name == key with
    | true => exact hplan
    | false => exact ih

variable (numbers : ∀ s u, alike s u → Matches alike s.newNumber u.newNumber)
include numbers

theorem exception_follows (t : Thrown) :
    (exception t).Follows (Bench.SameButWaits callable alike) (exception t) Eq := by
  cases t with
  | error e => exact .pure rfl
  | fresh c => exact .ofScript (.newException numbers c [])

/-- What an expectation says of a call does not depend on when the call is made. -/
theorem follow_follows {e e' : CallExpectation} (h : e.prompt = e'.prompt)
    (name : String) (isStandIn : Bool) :
    (follow name isStandIn e).Follows (Bench.SameButWaits callable alike) (follow name isStandIn e')
      CallPlan.SameButWait := by
  have hthrown : e.thrown = e'.thrown := (congrArg CallExpectation.thrown h :)
  have hreal : e.real = e'.real := (congrArg CallExpectation.real h :)
  have houtput : e.output = e'.output := (congrArg CallExpectation.output h :)
  unfold follow
  rw [hthrown, hreal, houtput]
  split
  · refine (exception_follows numbers _).bind ?_
    rintro x _ rfl
    exact .pure ⟨rfl, rfl, rfl⟩
  · split
    · split
      · exact .fail (.configuration _)
      · exact .pure ⟨rfl, rfl, rfl⟩
    · exact .pure ⟨rfl, rfl, rfl⟩

omit numbers in
theorem unconfigured_follows (call : Call) (refused : Bool) (step step' : Nat) :
    (unconfigured call refused step).Follows (Bench.SameButWaits callable alike)
      (unconfigured call refused step')
      CallPlan.SameButWait := by
  unfold unconfigured
  split
  · exact .fail (.reporting _ (.unmatched ..))
  · split
    · exact .fail (.unmatched ..)
    · exact .pure (.refl _)

omit numbers in
/-- **The planners plan a call alike**, but for when it is made. -/
theorem plan_follows {setup setup' : Setup} (h : setup.SameButWait setup')
    (sequential : setup.program.Sequential raisable callable alike) (view : View)
    (call : Call) (forked : Bool) :
    (plan setup view call forked).Follows (Bench.SameButWaits callable alike)
      (plan setup' .idle call forked)
      CallPlan.SameButWait := by
  have hplanner := h.planner
  unfold plan
  generalize setup.planner = planner at hplanner ⊢
  generalize setup'.planner = planner' at hplanner ⊢
  cases hplanner with
  | real => exact .pure (.refl _)
  | table same => exact .pure (lookup_sameButWait (List.rel_reverse same) call.name)
  | expecting failOnUnconfigured countsSteps =>
    dsimp only
    unfold expected
    rw [← h.program]
    refine Act.Follows.get.bind fun s u same => ?_
    rw [← CallLedger.contains_prompt, same.calls, CallLedger.contains_prompt]
    split
    · refine (Act.Follows.ofScript (CallLedger.record_follows same.calls same.asksOfCalls
        (fun f hf => sequential.accepts view hf) _ _ _ _)).bind fun r r' recorded => ?_
      cases recorded with
      | refused same => exact .fail same
      | counted expectation ledger asks =>
        refine (Act.Follows.modify fun s u same => ?_).bind fun _ _ _ =>
          follow_follows sequential.numbers expectation _ _
        exact { same with calls := ledger, asksOfCalls := asks }
    · exact unconfigured_follows _ _ _ _

end Planner

end Planning

/-! ### Handling -/

theorem Refusal.failure_alike (r : Refusal) : r.failure.Alike r.failure := .exn _

/-- What becomes of an action that no expectation accepts does not depend on the step, but for the
place that its refusal names. -/
theorem ActionLedger.leaveOver_alike (l : ActionLedger) (d : Dispatched)
    (step step' : Option Nat) :
    Agree (· = ·) (l.leaveOver d step) (l.leaveOver d step') := by
  unfold leaveOver
  dsimp only
  split
  · exact .error (.reporting _ (.unmatched ..))
  · split
    · cases Value.checkKey _ with
      | ok => exact .ok rfl
      | error r => exact .error r.failure_alike
    · exact .ok rfl

section Handling

variable {holds holds' : Value → Value → Eval Bool} {l : ActionLedger}

/-- An action counts towards the same expectation. The ledger asks what it has asked before. -/
theorem ActionLedger.record_follows (callables : ∀ f ∈ l.predicates, callable f)
    (asked : ∀ f, callable f → ∀ v, (holds f v).Follows alike (holds' f v) Eq) (d : Dispatched)
    (step step' : Option Nat) :
    (l.record holds d step).Follows alike (l.record holds' d step')
      (Agree fun l l' => l = l' ∧ ∀ f ∈ l.predicates, callable f) := by
  have hcallable : ∀ e ∈ l.expectations, ∀ f ∈ e.predicates, callable f := fun e he f hf =>
    callables f (List.mem_flatMap.mpr ⟨e, he, hf⟩)
  have hcount := (Eval.Follows.echo alike).countAction
    (fun e he f hf => asked f (hcallable e he f hf)) d
  refine (Eval.Follows.yielding hcount (countFirst_yields holds d _)).bind ?_
  rintro found _ ⟨rfl, hactions⟩
  cases found with
  | error r => exact .pure (.error r.failure_alike)
  | ok found =>
    cases found with
    | some es =>
      refine .pure (.ok ⟨rfl, fun f hf => ?_⟩)
      obtain ⟨e, he, hf⟩ := List.mem_flatMap.mp hf
      have hmem : e.action ∈ l.expectations.map (·.action) :=
        hactions es rfl ▸ List.mem_map_of_mem he
      obtain ⟨y, hy, hye⟩ := List.mem_map.mp hmem
      refine hcallable y hy f ?_
      rw [ActionExpectation.predicates, hye]
      exact hf
    | none =>
      refine .pure ?_
      have hleft := l.leaveOver_alike d step step'
      generalize hkept : l.leaveOver d step = left at hleft ⊢
      generalize l.leaveOver d step' = left' at hleft ⊢
      cases hleft with
      | error h => exact .error h
      | ok h =>
        obtain rfl := h
        refine .ok ⟨rfl, ?_⟩
        rw [predicates, leaveOver_expectations hkept]
        exact callables

end Handling

/-- What a selection comes to does not depend on the step, but for the place that its refusal names.
-/
theorem Selection.settle_cases (selection : Selection) (v : Value) :
    (∃ v', ∀ step, selection.settle step v = .ok v') ∨
      ∃ message, ∀ step, selection.settle step v = .error (.unmatched message (some step)) := by
  unfold settle
  split
  · split
    · exact .inl ⟨_, fun _ => rfl⟩
    · exact .inr ⟨_, fun _ => rfl⟩
  · split
    · exact .inl ⟨_, fun _ => rfl⟩
    · exact .inr ⟨_, fun _ => rfl⟩
  · exact .inl ⟨_, fun _ => rfl⟩

inductive Reaction.Alike : Reaction → Reaction → Prop
  | advance (v : Value) : Alike (.advance v) (.advance v)
  | mismatched : Alike (.invalid .null) (.invalid .null)

theorem Reaction.Alike.eq {r r' : Reaction} (h : r.Alike r') : r = r' := by
  cases h <;> rfl

namespace Handling

section

variable {setup setup' : Setup} (h : setup.SameButWait setup')
  (sequential : setup.program.Sequential raisable callable alike) (view : View)
include h sequential

theorem dispatch_follows (step step' : Nat) (action : Mapping) (object : Value) :
    (dispatch setup view step action object).Follows (Bench.SameButWaits callable alike)
      (dispatch setup' .idle step' action object) Reaction.Alike := by
  unfold dispatch
  rw [← h.program]
  refine (Act.Follows.modify fun s u same =>
    { same with dispatched := congrArg (· ++ [object]) same.dispatched }).bind fun _ _ _ =>
      Act.Follows.get.bind fun s u same => ?_
  rw [← same.actions]
  refine (Act.Follows.ofScript (ActionLedger.record_follows same.asksOfActions
    (fun f hf => sequential.accepts view hf) _ _ _)).bind fun r r' recorded => ?_
  cases recorded with
  | error h => exact .fail h
  | ok h =>
    obtain ⟨rfl, asks⟩ := h
    refine (Act.Follows.modify fun s u same => ?_).bind fun _ _ _ => .pure (.advance _)
    exact { same with actions := rfl, asksOfActions := asks }

/-- The search of a take or a watcher finds the same. -/
theorem search_follows {pattern : Value} (asks : ∀ f ∈ pattern.predicates, callable f)
    (queue : List Value) :
    (Queue.take? (Script.accepts setup.program view) pattern queue).Follows alike
      (Queue.take? (Script.accepts setup'.program .idle) pattern queue) Eq := by
  rw [← h.program]
  exact (Eval.Follows.echo alike).take? (fun f hf => sequential.accepts view (asks f hf)) queue

theorem serve_follows {pattern : Value}
    (asks : ∀ f ∈ pattern.predicates, callable f) {context : Context}
    (outside : context.inComposite = false) :
    (serve setup view context pattern).Follows (Bench.SameButWaits callable alike)
      (serve setup' .idle Straight.context pattern) Reaction.Alike := by
  unfold serve
  refine Act.Follows.get.bind fun s u same => ?_
  rw [← same.queue]
  refine (Act.Follows.ofScript (search_follows h sequential view asks s.queue)).bind ?_
  rintro found _ rfl
  cases found with
  | error r => exact .fail r.failure_alike
  | ok found =>
    cases found with
    | some found =>
      exact (Act.Follows.modify fun s u same => { same with queue := rfl }).bind fun _ _ _ =>
        .pure (.advance _)
    | none =>
      rw [outside]
      exact .fail (.reporting _ (.unmatched ..))

theorem look_follows {pattern : Value} (asks : ∀ f ∈ pattern.predicates, callable f) :
    (look setup view pattern).Follows (Bench.SameButWaits callable alike)
      (look setup' .idle pattern)
      Reaction.Alike := by
  unfold look
  refine Act.Follows.get.bind fun s u same => ?_
  rw [← same.queue, Queue.peek?_eq, Queue.peek?_eq, map_eq_pure_bind, map_eq_pure_bind]
  have hfound := (search_follows h sequential view asks s.queue).bind (q := Eq)
    fun found _ same => .pure (congrArg (Except.map (Option.map Prod.fst)) same)
  refine (Act.Follows.ofScript hfound).bind ?_
  rintro found _ rfl
  cases found with
  | error r => exact .fail r.failure_alike
  | ok found => exact .pure (.advance _)

theorem evaluate_follows (step step' : Nat) {selector : Value}
    (asks : callable selector) (args : List Value) :
    (evaluate setup view step selector args).Follows (Bench.SameButWaits callable alike)
      (evaluate setup' .idle step' selector args) Reaction.Alike := by
  unfold evaluate
  rw [← h.program, ← h.selection]
  have hcalled := Eval.Follows.of_matches
    (sequential.calls view (setup.selection.state :: args) [] asks)
  refine (Act.Follows.attempt hcalled).bind fun r r' answered => ?_
  cases r with
  | ok v =>
    cases r' with
    | error e => cases answered
    | ok v' =>
      cases answered with
      | ok h =>
        obtain rfl := h
        dsimp only
        rcases setup.selection.settle_cases v with ⟨v', hv⟩ | ⟨message, hv⟩
        · rw [hv, hv]
          exact .pure (.advance _)
        · rw [hv, hv]
          exact .fail (.unmatched ..)
  | error e =>
    cases r' with
    | ok v => cases answered
    | error e' =>
      cases answered with
      | error h =>
        cases h
        dsimp only
        split
        · exact .fail (.exn e)
        · exact .fail (.reporting _ (.unmatched ..))

/-- **The standard handlers answer alike.** -/
theorem react_follows {handling : Handling} (standard : handling ∈ Handling.standard.map Prod.snd)
    {e : Effect} (asks : e.CallsOnly callable) {context : Context}
    (outside : context.inComposite = false) :
    (react setup handling view context e).Follows (Bench.SameButWaits callable alike)
      (react setup' handling .idle Straight.context e) Reaction.Alike := by
  have hhandling : handling = .put ∨ handling = .select ∨ handling = .take ∨ handling = .watch := by
    simpa [Handling.standard] using standard
  unfold react
  split
  · exact dispatch_follows h sequential view _ _ _ _
  · exact serve_follows h sequential view asks outside
  · exact look_follows h sequential view asks
  · exact evaluate_follows h sequential view _ _ (asks _ (List.mem_singleton_self _)) _
  · simp at hhandling
  · simp at hhandling
  · simp at hhandling
  · simp at hhandling
  · exact .pure .mismatched

end

end Handling

/-! ### The world of a setup -/

/-- Effects have the standard handlers, or none. -/
def Setup.Standard (setup : Setup) : Prop :=
  ∀ (e : Effect) (handling : Handling), setup.handlers.lookup? e.classes = some handling →
    handling ∈ Handling.standard.map Prod.snd

theorem Setup.standard_of_handlers {setup : Setup}
    (h : setup.handlers = ⟨Handling.standard.map fun h => (h.1, some h.2)⟩) : setup.Standard := by
  intro e handling hlookup
  rw [h] at hlookup
  obtain ⟨c, _, hown⟩ := List.exists_of_findSome?_eq_some hlookup
  obtain ⟨before, after, hentries, _⟩ :=
    List.lookup_eq_some_iff.mp (Option.join_eq_some_iff.mp hown)
  have hmem : (c, some handling) ∈ Handling.standard.map fun h => (h.1, some h.2) := by
    rw [show Handling.standard.map (fun h => (h.1, some h.2)) = _ from hentries]
    exact List.mem_append_right _ (List.mem_cons_self ..)
  obtain ⟨entry, hentry, heq⟩ := List.mem_map.mp hmem
  obtain rfl := Option.some.inj (Prod.mk.inj heq).2
  exact List.mem_map_of_mem hentry

/-- **The bench answers a sequential script in the same way, whichever of the planners it has** and
whatever is shown of the run. -/
theorem Setup.SameButWait.follows {setup setup' : Setup} (h : setup.SameButWait setup')
    (standard : setup.Standard) (sequential : setup.program.Sequential raisable callable alike) :
    setup.world.FollowsWithin raisable (Effect.CallsOnly callable) setup'.world
      (Bench.SameButWaits callable alike) where
  resumes := by
    intro s u view g signal same within
    obtain ⟨answer, state⟩ := sequential.resumes view g same.memory within
    rw [h.program] at answer state
    refine ⟨?_, ?_⟩
    · simp only [Setup.world, h.program]
      exact answer
    · simp only [Setup.world, h.program]
      exact { same with memory := state }
  yields := by
    intro s u view g signal x same within hx
    exact sequential.yields view g same.memory within hx
  raises := by
    intro s u view g signal e same within he
    exact sequential.raises view g same.memory within he
  invokes := by
    intro s u view call asks same
    obtain ⟨answer, state⟩ := sequential.calls view call.args call.kwargs
      (asks call.fn (List.mem_singleton_self _)) _ _ same.memory
    rw [h.program] at answer state
    refine ⟨?_, ?_⟩
    · simp only [Setup.world, h.program]
      exact answer
    · simp only [Setup.world, h.program]
      exact { same with memory := state }
  plans := by
    intro s u view call asks same
    exact Planner.plan_follows h sequential view call false s u same
  handlers := by
    intro e
    simp only [Setup.world, h.handlers, Option.map_eq_none_iff]
  handles := by
    intro e handler handler' s u view context hh hh' _ asks outside same
    obtain ⟨handling, hlookup, rfl⟩ := Option.map_eq_some_iff.mp hh
    obtain ⟨handling', hlookup', rfl⟩ := Option.map_eq_some_iff.mp hh'
    rw [← h.handlers, hlookup, Option.some.injEq] at hlookup'
    subst hlookup'
    obtain ⟨answer, state⟩ :=
      Handling.react_follows h sequential view (standard e handling hlookup) asks outside
      s u same
    exact ⟨answer.mono fun _ _ => Reaction.Alike.eq, state⟩
  shows := by
    intro e handler s u view context x hh _ asks outside same hx
    obtain ⟨handling, hlookup, rfl⟩ := Option.map_eq_some_iff.mp hh
    obtain ⟨answer, _⟩ :=
      Handling.react_follows h sequential view (standard e handling hlookup) asks outside
      s u same
    change ((Handling.react setup handling view context e).run s).1 = _ at hx
    rw [hx] at answer
    obtain ⟨_, _, alike⟩ := answer.exists_ok
    cases alike
    rfl

end Rehearsal
