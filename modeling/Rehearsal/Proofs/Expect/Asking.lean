import Rehearsal.Bench.Queue
import Rehearsal.Expect.Actions
import Rehearsal.Expect.Calls
import Rehearsal.Value.Arithmetic

/-!
# Asking predicates

Values, calls and actions are held against what is expected of them by asking predicates, in
whatever monad that takes place. All that is made of an answer is to go on by it. So where the
predicates that may be asked answer alike in two monads, whatever is held against them comes to the
same in both.
-/
namespace Rehearsal

/-! ### The predicates that may be asked -/

namespace Value

def predicate? : Value → Option Value
  | .placeholder (.satisfying f) => some f
  | _ => none

/-- The predicates that a pattern asks. -/
def predicates (pattern : Value) : List Value :=
  if pattern.isCallable then [pattern] else (pattern.items?.getD [pattern]).filter (!·.isText)

end Value

def CallExpectation.predicates (e : CallExpectation) :
    List Value := (e.params.getD []).filterMap Value.predicate?

namespace CallLedger

def predicates (c : CallLedger) : List Value := c.groups.flatMap fun g => g.2.flatMap (·.predicates)

/-- What the expectations of one name ask, the ledger asks. -/
theorem mem_predicates_of_group {c : CallLedger} {name : String} {e : CallExpectation}
    (he : e ∈ (c.group? name).getD []) {f : Value} (hf : f ∈ e.predicates) : f ∈ c.predicates := by
  cases hgroup : c.group? name with
  | none =>
    rw [hgroup] at he
    cases he
  | some es =>
    rw [hgroup] at he
    obtain ⟨g, hfind, rfl⟩ := Option.map_eq_some_iff.mp hgroup
    exact List.mem_flatMap.mpr
      ⟨g, List.mem_of_find?_eq_some hfind, List.mem_flatMap.mpr ⟨e, he, hf⟩⟩

end CallLedger

def ActionExpectation.predicates (e : ActionExpectation) : List Value :=
  ((e.action.map (·.entries)).getD []).filterMap fun entry => entry.2.predicate?

def ActionLedger.predicates (l : ActionLedger) : List Value := l.expectations.flatMap (·.predicates)

/-! ### Takes and watchers -/

/-- A watcher searches the queue just as a take does. -/
theorem Queue.peek?_eq {m : Type → Type} [Monad m] [LawfulMonad m] (holds : Value → Value → m Bool)
    (pattern : Value) (queue : List Value) :
    peek? holds pattern queue =
      (Except.map (Option.map Prod.fst)) <$> take? holds pattern queue := by
  induction queue with
  | nil => simp [peek?, take?, Except.map]
  | cons a rest ih =>
    rw [peek?, take?, map_bind]
    refine congrArg _ (funext fun matched => ?_)
    cases matched with
    | error r => simp [Except.map]
    | ok matched =>
      cases matched with
      | true => simp [Except.map]
      | false =>
        simp only [ih, map_eq_pure_bind, bind_assoc, pure_bind]
        refine congrArg _ (funext fun found => ?_)
        rcases found with r | _ | found <;> rfl

/-! ### Comparisons in two monads -/

/-- A relation between computations of two monads that lasts as long as they go on alike. -/
structure Echo (m n : Type → Type) [Monad m] [Monad n] where
  Rel : ∀ {α : Type}, m α → n α → Prop
  pure : ∀ {α : Type} (a : α), Rel (Pure.pure a) (Pure.pure a)
  bind : ∀ {α β : Type} {x : m α} {y : n α} {f : α → m β} {g : α → n β},
    Rel x y → (∀ a, Rel (f a) (g a)) → Rel (x >>= f) (y >>= g)

namespace Echo

variable {m n : Type → Type} [Monad m] [Monad n] (echo : Echo m n)
  {holds : Value → Value → m Bool} {holds' : Value → Value → n Bool}

theorem matchesValue {e : Value} (asked : ∀ f, e.predicate? = some f →
    ∀ v, echo.Rel (holds f v) (holds' f v))
    (r : Value) : echo.Rel (e.matchesValue holds r) (e.matchesValue holds' r) := by
  unfold Value.matchesValue
  split
  · rename_i p
    cases p with
    | satisfying f => exact asked f rfl r
    | _ => exact echo.pure _
  · exact echo.pure _

theorem matchesAll {es : List Value}
    (asked : ∀ f ∈ es.filterMap Value.predicate?, ∀ v, echo.Rel (holds f v) (holds' f v))
    (rs : List Value) :
    echo.Rel (Value.matchesAll holds es rs) (Value.matchesAll holds' es rs) := by
  induction es generalizing rs with
  | nil => exact echo.pure _
  | cons e es ih =>
    cases rs with
    | nil => exact echo.pure _
    | cons r rs =>
      have hfirst : echo.Rel (e.matchesValue holds r) (e.matchesValue holds' r) :=
        echo.matchesValue
          (fun f hf => asked f (List.mem_filterMap.mpr ⟨e, List.mem_cons_self .., hf⟩)) r
      refine echo.bind hfirst fun matched => ?_
      split
      · refine ih (fun f hf => asked f ?_) rs
        obtain ⟨e', hmem, hf⟩ := List.mem_filterMap.mp hf
        exact List.mem_filterMap.mpr ⟨e', List.mem_cons_of_mem _ hmem, hf⟩
      · exact echo.pure _

theorem paramsMatch {params : Option (List Value)}
    (asked : ∀ f ∈ (params.getD []).filterMap Value.predicate?, ∀ v,
      echo.Rel (holds f v) (holds' f v))
    (args : List Value) :
    echo.Rel (paramsMatch holds params args) (paramsMatch holds' params args) := by
  unfold Rehearsal.paramsMatch
  cases params with
  | none => exact echo.pure _
  | some ps =>
    dsimp only
    split
    · exact echo.matchesAll asked args
    · exact echo.pure _

/-- One test after another, up to the first that holds. -/
theorem anyM {α : Type} {f : α → m Bool} {g : α → n Bool} {xs : List α}
    (h : ∀ x ∈ xs, echo.Rel (f x) (g x)) : echo.Rel (xs.anyM f) (xs.anyM g) := by
  induction xs with
  | nil => exact echo.pure _
  | cons x xs ih =>
    rw [List.anyM_cons, List.anyM_cons]
    refine echo.bind (h x (List.mem_cons_self ..)) fun found => ?_
    cases found with
    | true => exact echo.pure _
    | false => exact ih fun x hx => h x (List.mem_cons_of_mem _ hx)

theorem actionMatches {action pattern : Value}
    (asked : ∀ f ∈ pattern.predicates, echo.Rel (holds f action) (holds' f action)) :
    echo.Rel (actionMatches holds action pattern) (actionMatches holds' action pattern) := by
  unfold Rehearsal.actionMatches
  split
  · exact echo.pure _
  · unfold Value.predicates at asked
    split
    · rename_i hcall
      rw [if_pos hcall] at asked
      exact echo.bind (asked pattern (List.mem_singleton_self _)) fun _ => echo.pure _
    · rename_i hcall
      rw [if_neg hcall] at asked
      split
      · dsimp only
        split
        · exact echo.pure _
        · refine echo.bind (echo.anyM fun entry hentry => ?_) fun _ => echo.pure _
          cases entry with
          | text s => exact echo.pure _
          | _ => exact asked _ (List.mem_filter.mpr ⟨hentry, rfl⟩)
      · exact echo.pure _

/-- What a search finds depends on what the predicates say. -/
theorem take? {pattern : Value}
    (asked : ∀ f ∈ pattern.predicates, ∀ v, echo.Rel (holds f v) (holds' f v))
    (queue : List Value) :
    echo.Rel (Queue.take? holds pattern queue) (Queue.take? holds' pattern queue) := by
  induction queue with
  | nil => exact echo.pure _
  | cons a queue ih =>
    rw [Queue.take?, Queue.take?]
    refine echo.bind (echo.actionMatches fun f hf => asked f hf a) fun matched => ?_
    rcases matched with r | _ | _
    · exact echo.pure _
    · exact echo.bind ih fun _ => echo.pure _
    · exact echo.pure _

/-- What a watcher is shown depends on what the predicates say. -/
theorem peek? {pattern : Value}
    (asked : ∀ f ∈ pattern.predicates, ∀ v, echo.Rel (holds f v) (holds' f v))
    (queue : List Value) :
    echo.Rel (Queue.peek? holds pattern queue) (Queue.peek? holds' pattern queue) := by
  induction queue with
  | nil => exact echo.pure _
  | cons a queue ih =>
    rw [Queue.peek?, Queue.peek?]
    refine echo.bind (echo.actionMatches fun f hf => asked f hf a) fun matched => ?_
    rcases matched with r | _ | _
    · exact echo.pure _
    · exact ih
    · exact echo.pure _

theorem entriesMatch {received : Mapping} {entries : List (Value × Value)}
    (asked : ∀ f ∈ entries.filterMap fun entry => entry.2.predicate?, ∀ v,
      echo.Rel (holds f v) (holds' f v)) :
    echo.Rel (ActionExpectation.entriesMatch holds received entries)
      (ActionExpectation.entriesMatch holds' received entries) := by
  induction entries with
  | nil => exact echo.pure _
  | cons entry entries ih =>
    obtain ⟨k, expected⟩ := entry
    have hfirst : ∀ r, echo.Rel (expected.matchesValue holds r) (expected.matchesValue holds' r) :=
      echo.matchesValue fun f hf => asked f (List.mem_filterMap.mpr ⟨_, List.mem_cons_self .., hf⟩)
    refine echo.bind (hfirst _) fun matched => ?_
    split
    · refine ih fun f hf => asked f ?_
      obtain ⟨entry, hmem, hf⟩ := List.mem_filterMap.mp hf
      exact List.mem_filterMap.mpr ⟨entry, List.mem_cons_of_mem _ hmem, hf⟩
    · exact echo.pure _

theorem accepts {e : ActionExpectation}
    (asked : ∀ f ∈ e.predicates, ∀ v, echo.Rel (holds f v) (holds' f v)) (action : Mapping) :
    echo.Rel (e.accepts holds action) (e.accepts holds' action) := by
  obtain ⟨type, expected, times, strict, received⟩ := e
  cases type with
  | some t => exact echo.pure _
  | none =>
    cases expected with
    | none => exact echo.pure _
    | some expected =>
      unfold ActionExpectation.accepts
      dsimp only
      split
      · exact echo.bind (echo.entriesMatch asked) fun _ => echo.pure _
      · exact echo.pure _

/-! ### Ledgers -/

theorem countAction {es : List ActionExpectation}
    (asked : ∀ e ∈ es, ∀ f ∈ e.predicates, ∀ v, echo.Rel (holds f v) (holds' f v))
    (d : Dispatched) :
    echo.Rel (ActionLedger.countFirst holds d es) (ActionLedger.countFirst holds' d es) := by
  induction es with
  | nil => exact echo.pure _
  | cons e es ih =>
    refine echo.bind (echo.accepts (asked e (List.mem_cons_self ..)) d.action) fun accepted => ?_
    split
    · exact echo.pure _
    · exact echo.pure _
    · exact echo.bind (ih fun e he => asked e (List.mem_cons_of_mem _ he)) fun _ => echo.pure _

theorem countCall {es : List CallExpectation}
    (asked : ∀ e ∈ es, ∀ f ∈ e.predicates, ∀ v, echo.Rel (holds f v) (holds' f v))
    (args : List Value) :
    echo.Rel (CallLedger.countFirst holds args es) (CallLedger.countFirst holds' args es) := by
  induction es with
  | nil => exact echo.pure _
  | cons e es ih =>
    refine echo.bind (echo.paramsMatch (asked e (List.mem_cons_self ..)) args) fun matched => ?_
    split
    · exact echo.pure _
    · exact echo.bind (ih fun e he => asked e (List.mem_cons_of_mem _ he)) fun _ => echo.pure _

theorem recordAction {l : ActionLedger}
    (asked : ∀ f ∈ l.predicates, ∀ v, echo.Rel (holds f v) (holds' f v))
    (d : Dispatched) (step : Option Nat) :
    echo.Rel (l.record holds d step) (l.record holds' d step) := by
  refine echo.bind
    (echo.countAction (fun e he f hf => asked f (List.mem_flatMap.mpr ⟨e, he, hf⟩)) d)
    fun found => ?_
  split
  · exact echo.pure _
  · exact echo.pure _
  · exact echo.pure _

theorem recordCall {c : CallLedger}
    (asked : ∀ f ∈ c.predicates, ∀ v, echo.Rel (holds f v) (holds' f v))
    (name : String) (args : List Value)
    (step : Option Nat) :
    echo.Rel (c.record holds name args step) (c.record holds' name args step) := by
  refine echo.bind
    (echo.countCall (fun e he f hf => asked f (CallLedger.mem_predicates_of_group he hf)) args)
    fun found => ?_
  split
  · exact echo.pure _
  · exact echo.pure _

end Echo

end Rehearsal
