import Rehearsal.Expect.Matching
import Rehearsal.Expect.Report
import Rehearsal.Options

/-!
# Expected actions

A ledger of expected actions, each given by its type or in full. An action counts towards the first
expectation it matches. One that matches none is refused where an expectation of its type is
strict, and kept for the reports where one of its type is not.
-/
namespace Rehearsal

structure ActionExpectation where
  type : Option Value
  action : Option Mapping
  times : Option Nat
  strict : Bool
  received : List Value

namespace ActionExpectation

def fieldNames : List String := ["type", "action", "times", "strict"]

def shapeRefusal : Failure := .configuration
  ("expected_actions must be a list of mappings containing either " ++
    "an attribute \"type\" or \"action\"")

def checkAction : Value → Except Failure (Option Mapping)
  | .null => .ok none
  | v =>
    let refusal := Except.error (v.reportedIn
      (.configuration ("expected action must be a mapping with a 'type', got " ++ v.repr)))
    match v with
    | .dict m => if m.hasKey (.text "type") then .ok (some m) else refusal
    | _ => refusal

/-- A field that may be absent or nothing. -/
def present? : Option Value → Option Value
  | some .null => none
  | v => v

/-- The expectation that a mapping describes. -/
def ofValue (v : Value) : Except Failure ActionExpectation :=
  match v with
  | .dict m => do
    if !m.hasKey (.text "type") && !m.hasKey (.text "action") then throw shapeRefusal
    let unknown ← m.unknownKeys fieldNames
    if !unknown.isEmpty then
      throw ((Value.list unknown).reportedIn
        (.configuration ("expected action has unknown keys " ++ (Value.list unknown).repr)))
    let get := fun (field : String) => (m.getText? field).getD .null
    let action ← checkAction (get "action")
    let times ← checkTimes "expected action" (get "times")
    let strict := ((m.getText? "strict").getD (.bool true)).truthy
    return { type := present? (m.getText? "type"), action, times, strict, received := [] }
  | _ => .error shapeRefusal

/-- The type of the expected action. An expectation of neither type nor action has none. -/
def actionType (e : ActionExpectation) : Except Refusal Value :=
  match e.type, e.action with
  | some t, _ => .ok t
  | none, some a => .ok ((a.getText? "type").getD .null)
  | none, none => .error (.typed "'NoneType' object is not subscriptable")

/-- Whether the expected action has the type `t`. -/
def isOfType (e : ActionExpectation) (t : Value) : Bool :=
  match e.actionType with
  | .ok u => u.eq t
  | .error _ => false

/-- Whether two mappings have the same keys. -/
def sameKeys (a b : Mapping) : Bool :=
  a.entries.length == b.entries.length && a.keys.all b.hasKey

variable {m : Type → Type} [Monad m]

/-- Whether the entries of an expected action match those of a received one. -/
def entriesMatch (holds : Value → Value → m Bool) (received : Mapping) :
    List (Value × Value) → m Bool
  | [] => pure true
  | (k, v) :: es => do
    if ← v.matchesValue holds ((received.get? k).getD .null) then entriesMatch holds received es
    else return false

/-- Whether a received action is as expected. -/
def accepts (holds : Value → Value → m Bool) (e : ActionExpectation) (received : Mapping) :
    m (Except Refusal Bool) :=
  match e.type, e.action with
  | some t, _ => pure (.ok (((received.getText? "type").getD .null).eq t))
  | none, some expected =>
    if sameKeys received expected then do
      return .ok (← entriesMatch holds received expected.entries)
    else pure (.ok false)
  | none, none => pure (.error (.typed "'NoneType' object is not iterable"))

def record (e : ActionExpectation) (d : Dispatched) : ActionExpectation :=
  { e with received := e.received ++ [d.object] }

def count (e : ActionExpectation) : Nat := e.received.length

def unmet (e : ActionExpectation) : Bool := isUnmet e.times e.count

end ActionExpectation

/-- Expectations, and by type the actions that matched none of them. -/
structure ActionLedger where
  expectations : List ActionExpectation
  strays : List (Value × List Value)

namespace ActionLedger

def empty : ActionLedger := ⟨[], []⟩

/-- A ledger from a list of mappings. -/
def ofValue (v : Value) : Except Failure ActionLedger :=
  match v with
  | .null => .ok empty
  | v => match v.items? with
    | some items => do return ⟨← items.mapM ActionExpectation.ofValue, []⟩
    | none => .error ActionExpectation.shapeRefusal

/-- The stray actions of a type. -/
def straysOf (l : ActionLedger) (t : Value) : List Value :=
  ((l.strays.find? fun s => t.same s.1).map (·.2)).getD []

/-- Keeps a stray action. -/
def addStray (l : ActionLedger) (t object : Value) : ActionLedger :=
  if l.strays.any fun s => t.same s.1 then
    { l with strays := l.strays.map fun s =>
        if t.same s.1 then (s.1, s.2 ++ [object]) else s }
  else { l with strays := l.strays ++ [(t, [object])] }

variable {m : Type → Type} [Monad m]

/-- Counts an action towards the first of several expectations that accepts it. -/
def countFirst (holds : Value → Value → m Bool) (d : Dispatched) :
    List ActionExpectation → m (Except Refusal (Option (List ActionExpectation)))
  | [] => pure (.ok none)
  | e :: es => do
    match ← e.accepts holds d.action with
    | .error r => return .error r
    | .ok true => return .ok (some (e.record d :: es))
    | .ok false =>
      return (← countFirst holds d es).map fun r => r.map fun es => e :: es

/-- A copy of a mapping that is not frozen. -/
def thawed (a : Mapping) : Value := .dict ⟨false, a.entries⟩

/-- The failure of an action that strict expectations of its type do not accept. -/
def unmatched (t : Value) (expected : List Mapping) (action : Mapping) (step : Option Nat) :
    Failure :=
  let diffs := expected.map fun e => diffValues (thawed e) (thawed action)
  reporting (t.hasLong || action.hasLong || expected.any (·.hasLong)) (.harness (.unmatched
    ("Received a strictly matched action of type '" ++ t.plain ++
      "', but no matching actions were found!" ++ "\n\n" ++ "\n\n".intercalate diffs) step))

/-- The full actions of the strict expectations of a type. -/
def strictOf (l : ActionLedger) (t : Value) : List Mapping :=
  l.expectations.filterMap fun e => if e.strict && e.isOfType t then e.action else none

/-- What becomes of an action that no expectation accepts. -/
def leaveOver (l : ActionLedger) (d : Dispatched) (step : Option Nat) :
    Except Failure ActionLedger :=
  let t := (d.action.getText? "type").getD .null
  let strict := l.strictOf t
  if !strict.isEmpty then .error (unmatched t strict d.action step)
  else if l.expectations.any (·.isOfType t) then
    (t.checkKey.mapError Refusal.failure).map fun _ => l.addStray t d.object
  else .ok l

/-- Counts a dispatched action. -/
def record (holds : Value → Value → m Bool) (l : ActionLedger) (d : Dispatched)
    (step : Option Nat) : m (Except Failure ActionLedger) := do
  match ← countFirst holds d l.expectations with
  | .error r => return .error r.failure
  | .ok (some es) => return .ok { l with expectations := es }
  | .ok none => return l.leaveOver d step

/-- The report of an unmet expectation, where what it received now shows as `look` says. -/
def unmetReport (look : Value → Value) (l : ActionLedger) (e : ActionExpectation) :
    Except Refusal String := do
  let t ← e.actionType
  t.checkKey
  let strays := l.straysOf t
  unmetMessage e.times "call(s) to action" t (e.action.map thawed)
    ((e.received ++ strays).map look) (e.count + strays.length)

/-- The reports of all unmet expectations, in their order. -/
def unmetMessages (look : Value → Value) (l : ActionLedger) : Except Refusal (List String) :=
  (l.expectations.filter (·.unmet)).mapM (l.unmetReport look)

end ActionLedger

end Rehearsal
