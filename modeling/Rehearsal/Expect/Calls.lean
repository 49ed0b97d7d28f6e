import Rehearsal.Expect.Matching
import Rehearsal.Expect.Report
import Rehearsal.Options

/-!
# Expected calls

A ledger of expected calls, grouped by the name of the function in the order they were configured.
A call counts towards the first expectation of its name that accepts its arguments.
-/
namespace Rehearsal

/-- What an expected call throws. -/
inductive Thrown where
  | error (e : Exn)
  /-- A new exception of the class each time. -/
  | fresh (c : ErrorClass)

namespace Thrown

def ofValue? : Value → Option Thrown
  | .error e => some (error e)
  | .typeRef (.error c) => some (fresh c)
  | _ => none

def toValue : Thrown → Value
  | error e => .error e
  | fresh c => .typeRef (.error c)

end Thrown

structure CallExpectation where
  name : Value
  /-- The parameters it accepts; any if there are none. -/
  params : Option (List Value)
  /-- How often the call is expected; at least once if there is no number. -/
  times : Option Nat
  output : Value
  thrown : Option Thrown
  /-- Whether the function is called for real. -/
  real : Bool
  wait : Wait
  /-- The arguments of the calls that counted. -/
  received : List (List Value)

namespace CallExpectation

def fieldNames : List String := ["name", "params", "times", "output", "throw", "call", "wait"]

def checkParams (place : String) : Value → Except Failure (Option (List Value))
  | .null => .ok none
  | v => match v.items? with
    | some items => .ok (some items)
    | none => .error (.configuration (place ++ ": params must be a list"))

def checkThrown (place : String) : Value → Except Failure (Option Thrown)
  | .null => .ok none
  | v => match Thrown.ofValue? v with
    | some t => .ok (some t)
    | none => .error (v.reportedIn
        (.configuration (place ++ ": throw must be an exception, got " ++ v.repr)))

def checkWait (place : String) (v : Value) : Except Failure Wait :=
  let refusal := Except.error (v.reportedIn
    (.configuration (place ++ ": wait must be a bool or a non-negative int, got " ++ v.repr)))
  match v with
  | .bool false => .ok .now
  | .bool true => .ok .last
  | .int n => if 0 ≤ n then .ok (.tick n) else refusal
  | _ => refusal

/-- The expectation that a mapping describes for calls of `name`. -/
def ofValue (name v : Value) : Except Failure CallExpectation := do
  name.checkLong.mapError Refusal.failure
  let place := "expected call to " ++ name.plain
  match v with
  | .dict m =>
    let unknown ← m.unknownKeys fieldNames
    if !unknown.isEmpty then
      throw ((Value.list unknown).reportedIn
        (.configuration (place ++ " has unknown keys " ++ (Value.list unknown).repr)))
    let get := fun (field : String) => (m.getText? field).getD .null
    let params ← checkParams place (get "params")
    let times ← checkTimes place (get "times")
    let thrown ← checkThrown place (get "throw")
    let wait ← checkWait place ((m.getText? "wait").getD (.bool false))
    let real := (get "call").truthy
    if thrown.isSome && real then
      throw (.configuration (place ++ ": throw and call cannot be combined"))
    return { name, params, times, output := get "output", thrown, real, wait, received := [] }
  | v => throw (.configuration (place ++ " must be a mapping, got " ++ v.typeName))

/-- The call counts towards the expectation. -/
def record (e : CallExpectation) (args : List Value) : CallExpectation :=
  { e with received := e.received ++ [args] }

def count (e : CallExpectation) : Nat := e.received.length

def unmet (e : CallExpectation) : Bool := isUnmet e.times e.count

/-- The report of the expectation, where what it received now shows as `look` says. -/
def report (look : Value → Value) (e : CallExpectation) : Except Refusal String :=
  unmetMessage e.times "call(s) to" e.name (e.params.map .list)
    (e.received.map fun args => .list (args.map look)) e.count

end CallExpectation

/-- Expectations by the name of the function they are about. -/
structure CallLedger where
  groups : List (Value × List CallExpectation)

namespace CallLedger

def empty : CallLedger := ⟨[]⟩

/-- The ledger with an expectation added to its group. -/
def add (c : CallLedger) (e : CallExpectation) : CallLedger :=
  if c.groups.any fun g => g.1.same e.name then
    ⟨c.groups.map fun g => if g.1.same e.name then (g.1, g.2 ++ [e]) else g⟩
  else ⟨c.groups ++ [(e.name, [e])]⟩

/-- The entries of one name in a mapping of names to lists. -/
def readGroup (entry : Value × Value) : Except Failure (Value × List CallExpectation) :=
  match entry.2.items? with
  | some items => do return (entry.1, ← items.mapM (CallExpectation.ofValue entry.1))
  | none => .error (.configuration "expected_calls must be an object containing arrays")

/-- An entry of a list, which names its function. -/
def readEntry (v : Value) : Except Failure CallExpectation :=
  let refusal := Except.error
    (Failure.configuration "every entry of expected_calls must be a mapping with a 'name'")
  match v with
  | .dict m => match m.getText? "name" with
    | some (.text s) => CallExpectation.ofValue (.text s) v
    | _ => refusal
  | _ => refusal

/-- A ledger from a list of named entries, or from a mapping of names to lists of entries. -/
def ofValue (v : Value) : Except Failure CallLedger :=
  match v with
  | .null => .ok empty
  | .dict m => do return ⟨← m.entries.mapM readGroup⟩
  | .list items | .tuple items =>
    items.foldlM (fun c item => do return c.add (← readEntry item)) empty
  | v => .error (.configuration ("expected_calls must be a list or a mapping, got " ++ v.typeName))

/-- The expectations of a name, if any were configured. -/
def group? (c : CallLedger) (name : String) : Option (List CallExpectation) :=
  (c.groups.find? fun g => g.1.same (.text name)).map (·.2)

def contains (c : CallLedger) (name : String) : Bool := (c.group? name).isSome

/-- The ledger with another group for a name. -/
def putGroup (c : CallLedger) (name : String) (es : List CallExpectation) : CallLedger :=
  ⟨c.groups.map fun g => if g.1.same (.text name) then (g.1, es) else g⟩

variable {m : Type → Type} [Monad m]

/-- Counts a call towards the first of several expectations that accepts its arguments. -/
def countFirst (holds : Value → Value → m Bool) (args : List Value) :
    List CallExpectation → m (Option (CallExpectation × List CallExpectation))
  | [] => pure none
  | e :: es => do
    if ← paramsMatch holds e.params args then
      let e := e.record args
      return some (e, e :: es)
    return (← countFirst holds args es).map fun r => (r.1, e :: r.2)

/-- The failure of a call that none of its expectations accepts. -/
def unmatched (name : String) (args : List Value) (es : List CallExpectation)
    (step : Option Nat) : Failure :=
  let diffs := es.map fun e => diffValues (.list (e.params.getD [])) (.list args)
  reporting (es.any fun e => anyLong (e.params.getD []) || anyLong args) (.harness (.unmatched
    ("Function '" ++ name ++ "' was called, but no matching set of parameters was found!" ++
      "\n\n" ++ "\n\n".intercalate diffs) step))

/-- Counts a call, and tells which expectation it counted towards. -/
def record (holds : Value → Value → m Bool) (c : CallLedger) (name : String) (args : List Value)
    (step : Option Nat) : m (Except Failure (CallExpectation × CallLedger)) := do
  let es := (c.group? name).getD []
  match ← countFirst holds args es with
  | some (e, es) => return .ok (e, c.putGroup name es)
  | none => return .error (unmatched name args es step)

/-- All expectations, group by group. -/
def expectations (c : CallLedger) : List CallExpectation := c.groups.flatMap (·.2)

/-- The reports of all unmet expectations, in their order. -/
def unmetMessages (look : Value → Value) (c : CallLedger) : Except Refusal (List String) :=
  (c.expectations.filter (·.unmet)).mapM (·.report look)

end CallLedger

end Rehearsal
