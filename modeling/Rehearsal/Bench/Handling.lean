import Rehearsal.Bench.Basic

/-!
# Handling effects

The standard handlers record dispatched actions, serve takes and watchers from the queue and
evaluate selectors. Further handlers ask a function of the script what to do.
-/
namespace Rehearsal.Handling

/-- A dispatched action is noted even where the ledger then refuses it. -/
def dispatch (setup : Setup) (view : View) (step : Nat) (action : Mapping) (object : Value) :
    Act Reaction := do
  modify fun s => { s with dispatched := s.dispatched ++ [object] }
  let s ← get
  let recorded := s.actions.record (Script.accepts setup.program view) ⟨action, object⟩ step
  match ← Act.ofScript recorded with
  | .error f => throw f
  | .ok actions =>
    modify fun s => { s with actions }
    return .advance .null

/-- A take inside a race or gather may wait for what never comes; anywhere else that is a
failure. -/
def serve (setup : Setup) (view : View) (context : Context) (pattern : Value) : Act Reaction := do
  let s ← get
  match ← Act.ofScript (Queue.take? (Script.accepts setup.program view) pattern s.queue) with
  | .error r => throw r.failure
  | .ok (some (action, queue)) =>
    modify fun s => { s with queue }
    return .advance action
  | .ok none =>
    if context.inComposite then return .defer .null .last (some "take")
    else throw (Queue.unmatched pattern context.step)

/-- A watcher is answered with the first action it would take. -/
def look (setup : Setup) (view : View) (pattern : Value) : Act Reaction := do
  let s ← get
  match ← Act.ofScript (Queue.peek? (Script.accepts setup.program view) pattern s.queue) with
  | .error r => throw r.failure
  | .ok found => return .advance (found.getD .null)

/-- A crash of a selector is a failure of the bench; a fatal exception stays what it is. -/
def evaluate (setup : Setup) (view : View) (step : Nat) (selector : Value) (args : List Value) :
    Act Reaction := do
  let called := Script.call setup.program view selector (setup.selection.state :: args) []
  match ← Act.attempt called with
  | .error e =>
    if e.kind.isFatal then throw (.exn e) else throw (Selection.crashed e step)
  | .ok v => match setup.selection.settle step v with
    | .ok v => return .advance v
    | .error h => Act.refuse h

/-- What a function of the script makes of a question. -/
def consult (setup : Setup) (view : View) (context : Context) (fn key : Value) : Act Value :=
  Act.ofScript (Script.call setup.program view fn
    [key, .text context.task.name, .bool context.inComposite, .int context.step] [])

/-- The key of a question. -/
def keyOf : Effect → Value
  | .question _ key => key
  | _ => .null

/-- Handles an effect. -/
def react (setup : Setup) (h : Handling) (view : View) (context : Context) (e : Effect) :
    Act Reaction :=
  match h, e with
  | put, .put action object => dispatch setup view context.step action object
  | take, .take pattern => serve setup view context pattern
  | watch, .watch _ pattern => look setup view pattern
  | select, .select selector args => evaluate setup view context.step selector args
  | marker, _ => pure (.advance (.marker context.task))
  | invalid v, _ => pure (.invalid v)
  | advance fn, e => do return .advance (← consult setup view context fn (keyOf e))
  | defer fn wait name, e => do
    return .defer (← consult setup view context fn (keyOf e)) wait name
  | _, _ => pure (.invalid .null)

/-- The handlers of actions and selections. -/
def standard : List (String × Handling) :=
  [("PutEffect", put), ("SelectEffect", select), ("TakeEffect", take), ("WatchEffect", watch)]

end Rehearsal.Handling
