import Rehearsal.Proofs.Bench.Conservation

/-!
# What an accepted configuration of actions may break

An entry of the configuration is accepted if it has the key of a type or that of an action, even
where nothing stands there. Whether an action can be recorded and what is unmet be reported then
depends on the entry: one of neither type nor action cannot be asked about any action, and one whose
type cannot be a key cannot be reported. No other entry breaks anything: an action is recorded, or
refused as unmatched with the ledger left as it was.
-/
namespace Rehearsal

open Script

/-! ### Ledgers and their configuration -/

def ActionExpectation.bare (e : ActionExpectation) : ActionExpectation := { e with received := [] }

namespace ActionLedger

variable {truth : Value → Value → Bool} {l : ActionLedger}

/-- The expectations as they are configured. -/
def configured (l : ActionLedger) : List ActionExpectation := l.expectations.map (·.bare)

theorem configured_of_accepted {v : Value} (h : ofValue v = .ok l) :
    l.configured = l.expectations := by
  have fresh := ofValue_ensures v l h
  have hbare : ∀ e ∈ l.expectations, e.bare = e := by
    intro e he
    obtain ⟨type, action, times, strict, received⟩ := e
    obtain rfl : received = [] := fresh _ he
    rfl
  exact (List.map_congr_left hbare).trans (List.map_id _)

theorem mem_predicates_configured {f : Value} (h : f ∈ l.predicates) :
    f ∈ l.configured.flatMap (·.predicates) := by
  obtain ⟨e, he, hf⟩ := List.mem_flatMap.mp h
  exact List.mem_flatMap.mpr ⟨e.bare, List.mem_map_of_mem he, hf⟩

/-- What is asked about an action does not depend on what has been received. -/
theorem reachesBlank_configured (l : ActionLedger) (d : Dispatched) :
    reachesBlank truth l.configured d = reachesBlank truth l.expectations d := by
  unfold reachesBlank configured
  rw [List.find?_map, Option.any_map]
  rfl

def refusesUnwritten (es : List ActionExpectation) (action : Mapping) : Bool :=
  let t := (action.getText? "type").getD .null
  let strict := strictOf ⟨es, []⟩ t
  !strict.isEmpty && (t.hasLong || action.hasLong || strict.any (·.hasLong))

/-- No expectation takes the action, and what refuses it cannot be written. -/
def illegible (truth : Value → Value → Bool) (es : List ActionExpectation) (d : Dispatched) :
    Bool :=
  (es.findIdx? (ActionExpectation.takes truth d)).isNone && refusesUnwritten es d.action

theorem illegible_configured (l : ActionLedger) (d : Dispatched) :
    illegible truth l.configured d = illegible truth l.expectations d := by
  have hstrict : ∀ t, strictOf ⟨l.configured, []⟩ t = strictOf ⟨l.expectations, []⟩ t := fun t => by
    unfold strictOf configured
    dsimp only
    rw [List.filterMap_map]
    rfl
  unfold illegible refusesUnwritten
  dsimp only
  rw [hstrict, configured, List.findIdx?_map]
  rfl

theorem configured_modify (l : ActionLedger) (i : Nat) (ds : List Dispatched) :
    { l with expectations := l.expectations.modify i (·.credit ds) }.configured =
      l.configured := by
  refine List.ext_getElem? fun j => ?_
  simp only [configured, List.getElem?_map, List.getElem?_modify, Option.map_eq_map, Option.map_map]
  refine congrArg (l.expectations[j]?.map ·) (funext fun e => ?_)
  simp only [Function.comp]
  split <;> rfl

/-- An action of a type that can be a key is kept or refused, and nothing else. -/
theorem leaveOver_text {d : Dispatched} {type : String}
    (h : d.action.getText? "type" = some (.text type))
    (step : Option Nat) :
    if refusesUnwritten l.expectations d.action then
      l.leaveOver d step = .error (longRefusal none).failure
    else (∃ l', l.leaveOver d step = .ok l') ∨
      ∃ message, l.leaveOver d step = .error (.harness (.unmatched message step)) := by
  have hrefuses : refusesUnwritten l.expectations d.action =
      (!(l.strictOf (.text type)).isEmpty &&
        ((Value.text type).hasLong || d.action.hasLong ||
          (l.strictOf (.text type)).any (·.hasLong))) := by
    unfold refusesUnwritten
    rw [h]
    rfl
  unfold leaveOver unmatched reporting
  rw [hrefuses, h, Option.getD_some]
  dsimp only
  generalize l.strictOf (.text type) = strict
  cases strict.isEmpty with
  | true =>
    simp only [Bool.not_true, Bool.false_and, Bool.false_eq_true, if_false]
    refine .inl ?_
    split
    · exact ⟨_, rfl⟩
    · exact ⟨_, rfl⟩
  | false =>
    simp only [Bool.not_false, Bool.true_and, if_true]
    split
    · rfl
    · exact .inr ⟨_, rfl⟩

end ActionLedger

/-! ### Dispatched actions -/

section Dispatching

variable {setup : Setup} {truth : Value → Value → Bool} {s : Bench} {es : List ActionExpectation}

/-- What a dispatched action comes to: it is recorded or refused as unmatched, unless it reaches a
blank expectation or its refusal cannot be written. -/
theorem Handling.dispatch_text (told : ∀ f ∈ s.actions.predicates, ∀ view v,
    (Script.accepts setup.program view f v).Gives (truth f v)) {action : Mapping} {type : String}
    (h : action.getText? "type" = some (.text type)) (object : Value) (view : View) (step : Nat) :
    let put := (dispatch setup view step action object).run s
    if ActionLedger.reachesBlank truth s.actions.expectations ⟨action, object⟩ then
      put.1 = .error ActionExpectation.blankRefusal.failure ∧ put.2.actions = s.actions
    else if ActionLedger.illegible truth s.actions.expectations ⟨action, object⟩ then
      put.1 = .error (longRefusal none).failure ∧ put.2.actions = s.actions
    else put.1 = .ok (.advance .null) ∨
      ∃ message, put.1 = .error (.harness (.unmatched message (some step))) ∧
      put.2.actions = s.actions := by
  have houtcome := ActionLedger.record_outcome (fun f hf => told f hf view) ⟨action, object⟩
    (some step)
  cases hblank : ActionLedger.reachesBlank truth s.actions.expectations ⟨action, object⟩ with
  | true =>
    rw [hblank, if_pos rfl] at houtcome
    obtain ⟨memory, hrun⟩ := dispatch_run houtcome
    rw [hrun, if_pos rfl]
    exact ⟨rfl, rfl⟩
  | false =>
    rw [hblank, if_neg Bool.false_ne_true] at houtcome
    obtain ⟨memory, hrun⟩ := dispatch_run houtcome
    rw [hrun, if_neg Bool.false_ne_true]
    unfold ActionLedger.illegible
    cases s.actions.expectations.findIdx? (ActionExpectation.takes truth ⟨action, object⟩) with
    | some i => exact .inl rfl
    | none =>
      rw [Option.isNone_none, Bool.true_and]
      have hleft := s.actions.leaveOver_text (d := ⟨action, object⟩) h (some step)
      dsimp only
      cases hrefuses : ActionLedger.refusesUnwritten s.actions.expectations action with
      | true =>
        rw [hrefuses, if_pos rfl] at hleft
        rw [hleft, if_pos rfl]
        exact ⟨rfl, rfl⟩
      | false =>
        rw [hrefuses, if_neg Bool.false_ne_true] at hleft
        rw [if_neg Bool.false_ne_true]
        obtain ⟨l, hleft⟩ | ⟨message, hleft⟩ := hleft
        · rw [hleft]
          exact .inl rfl
        · rw [hleft]
          exact .inr ⟨message, rfl, rfl⟩

theorem Handling.dispatch_configured (told : ∀ f ∈ s.actions.predicates, ∀ view v,
    (Script.accepts setup.program view f v).Gives (truth f v)) (action : Mapping)
    (object : Value) (view : View) (step : Nat) :
    ((dispatch setup view step action object).run s).2.actions.configured =
      s.actions.configured := by
  obtain ⟨memory, hrun⟩ :=
    dispatch_run (ActionLedger.record_outcome (fun f hf => told f hf view) ⟨action, object⟩
      (some step))
  rw [hrun]
  split
  · rename_i actions houtcome
    split at houtcome
    · cases houtcome
    · split at houtcome
      · cases houtcome
        exact s.actions.configured_modify ..
      · exact congrArg (List.map _) (ActionLedger.leaveOver_expectations houtcome)
  · rfl

/-- The handlers leave the configuration as it is. -/
theorem Inquiry.askAll_configured (told : ∀ f ∈ es.flatMap (·.predicates), ∀ view v,
    (Script.accepts setup.program view f v).Gives (truth f v)) (inquiries : List Inquiry)
    (h : s.actions.configured = es) : (askAll setup inquiries s).2.actions.configured = es := by
  induction inquiries generalizing s with
  | nil => exact h
  | cons i inquiries ih =>
    refine ih (Eq.trans ?_ h)
    obtain ⟨handling, view, context, effect⟩ := i
    by_cases hput : ∃ action object, handling = .put ∧ effect = .put action object
    · obtain ⟨action, object, rfl, rfl⟩ := hput
      refine Handling.dispatch_configured (fun f hf => told f ?_) action object view context.step
      exact h ▸ ActionLedger.mem_predicates_configured hf
    · have hkeeps : (handling.react setup view context effect).Keeps fun s =>
        s.actions.configured :=
        Handling.react_keeps (fun _ _ => rfl) setup handling view context
          (fun action object hh he => (hput ⟨action, object, hh, he⟩).elim) fun _ _ _ _ _ => rfl
      exact hkeeps s

end Dispatching

def acceptingSetup : Setup := ⟨acceptingScript, .real, ⟨.null, ⟨false, []⟩, false⟩, .empty⟩

/-- An action of a type, with one more field. -/
def numbered (type : String) (n : Value) :
    Mapping := ⟨false, [(.text "type", .text type), (.text "n", n)]⟩

/-- Actions of two types are expected, and one of no type at all, which is expected not to happen.
-/
def entriesWithBlank : Value := .list [
  .dict ⟨false, [(.text "type", .text "A")]⟩,
  .dict ⟨false, [(.text "action",
    .dict (numbered "B"
      (.placeholder (.satisfying (.predicate ⟨"accepting", .plain⟩ (.constant 0))))))]⟩,
  .dict ⟨false, [(.text "type", .null), (.text "times", .int 0)]⟩]

def ledgerWithBlank : ActionLedger := ⟨[
  ⟨some (.text "A"), none, none, true, []⟩,
  ⟨none, some (numbered "B"
    (.placeholder (.satisfying (.predicate ⟨"accepting", .plain⟩ (.constant 0))))), none,
    true, []⟩,
  ⟨none, none, some 0, true, []⟩], []⟩

end Rehearsal
