import Rehearsal.Failure
import Rehearsal.Value.Access

/-!
# Run options

The knobs of a run, given as a mapping whose keys are spelled with underscores or in camel case.
Every value is checked when the options are made.
-/
namespace Rehearsal

/-- A task by its id or its name. -/
inductive TaskKey where
  | id (n : Int)
  | name (s : String)
  deriving DecidableEq

/-- Which tasks a kind of trace block is written for. -/
inductive Selector where
  | unset
  | every (b : Bool)
  | one (k : TaskKey)
  | several (asTuple : Bool) (ks : List TaskKey)
  deriving DecidableEq

namespace Selector

def key? : Value → Option TaskKey
  | .int n => some (.id n)
  | .text s => some (.name s)
  | _ => none

def ofValue? : Value → Option Selector
  | .null => some unset
  | .bool b => some (every b)
  | .list vs => (vs.mapM key?).map (several false)
  | .tuple vs => (vs.mapM key?).map (several true)
  | v => (key? v).map one

def keyValue : TaskKey → Value
  | .id n => .int n
  | .name s => .text s

def toValue : Selector → Value
  | unset => .null
  | every b => .bool b
  | one k => keyValue k
  | several false ks => .list (ks.map keyValue)
  | several true ks => .tuple (ks.map keyValue)

/-- Whether the selector counts as set: all but the absent one, the negative one, and the number
zero, which equals it. -/
def isSet : Selector → Bool
  | unset | every false | one (.id 0) => false
  | _ => true

/-- Whether a task is meant by a key. -/
def meets (k : TaskKey) (t : Task) : Bool :=
  match k with
  | .id n => n == Int.ofNat t.id
  | .name s => s == t.name

/-- Whether the selector means any of the tasks. -/
def applies (s : Selector) (tasks : List Task) : Bool :=
  match s with
  | unset | every false => false
  | every true => true
  | one k => tasks.any (meets k)
  | several _ ks => ks.any fun k => tasks.any (meets k)

end Selector

namespace Value

/-- Whether a value equals the id or the name of one of the tasks. Truth values name no task. -/
def namesOneOf (v : Value) (tasks : List Task) : Except Refusal Bool :=
  match v with
  | bool _ => .ok false
  | v => v.checkKey.map fun _ => tasks.any fun t => v.same (int t.id) || v.same (text t.name)

/-- Whether a value, taken as a selector unchecked, means any of the tasks. -/
def selects (v : Value) (tasks : List Task) : Except Refusal Bool :=
  match v with
  | null => .ok false
  | bool b => .ok b
  | list vs | tuple vs => vs.anyM fun v => v.namesOneOf tasks
  | v => v.namesOneOf tasks

end Value

/-- The keys of a mapping that are none of the texts `known`, sorted. -/
def Mapping.unknownKeys (m : Mapping) (known : List String) :
    Except Failure (List Value) :=
  let extra := m.keys.filter fun k => match k with
    | .text s => !known.contains s
    | _ => true
  (Value.sort extra).mapError Refusal.failure

/-- Which tasks are traced, by kind of event. -/
structure DebugOptions where
  unblock : Selector
  bubble : Selector
  interrupt : Selector
  deriving DecidableEq

namespace DebugOptions

def default : DebugOptions := ⟨.unset, .unset, .unset⟩

/-- Whether any kind of event is traced, as far as the options themselves can tell. -/
def enabled (d : DebugOptions) : Bool :=
  d.unblock.isSet || d.bubble.isSet || d.interrupt.isSet

def fieldNames : List String := ["unblock", "bubble", "interrupt"]

def selector (m : Mapping) (name : String) : Except Failure Selector :=
  match m.getText? name with
  | none => .ok .unset
  | some v => match Selector.ofValue? v with
    | some s => .ok s
    | none => .error (.configuration
        ("debug." ++ name ++ " must be a bool, an id, a name or a list of ids and names"))

def ofValue (v : Value) : Except Failure DebugOptions :=
  match v with
  | .null => .ok default
  | .dict m => do
    let unknown ← m.unknownKeys fieldNames
    if !unknown.isEmpty then
      throw ((Value.list unknown).reportedIn
        (.configuration ("unknown debug options: " ++ (Value.list unknown).repr)))
    return ⟨← selector m "unblock", ← selector m "bubble", ← selector m "interrupt"⟩
  | _ => .error
      (.configuration "debug must be a mapping with unblock, bubble and interrupt keys")

end DebugOptions

structure RunOptions where
  /-- The ceiling of the step counter. -/
  stepLimit : Nat
  /-- Refuse calls with no expectation instead of running them. -/
  failOnUnconfigured : Bool
  /-- Note failures of detached tasks instead of ending the run. -/
  swallowSpawnErrors : Bool
  /-- Go on until detached tasks are finished too. -/
  waitForSpawned : Bool
  /-- Accept selectors that return nothing. -/
  passOnNone : Bool
  debug : DebugOptions
  deriving DecidableEq

namespace RunOptions

def default : RunOptions := ⟨10000, true, false, false, false, .default⟩

def fieldNames : List String :=
  ["step_limit", "fail_on_unconfigured", "swallow_spawn_errors", "wait_for_spawned",
    "pass_on_none", "debug"]

/-- The field that a key in camel case means. -/
def ofCamelCase? : String → Option String
  | "stepLimit" => some "step_limit"
  | "failOnUnconfigured" => some "fail_on_unconfigured"
  | "swallowSpawnErrors" => some "swallow_spawn_errors"
  | "waitForSpawned" => some "wait_for_spawned"
  | "passOnUndefined" => some "pass_on_none"
  | "passOnNone" => some "pass_on_none"
  | _ => none

/-- The field that a key means. -/
def fieldOf? : Value → Option String
  | .text s =>
    let name := (ofCamelCase? s).getD s
    if fieldNames.contains name then some name else none
  | _ => none

/-- The last value given for a field. -/
def given? (given : List (String × Value)) (name : String) : Option Value :=
  (given.reverse.find? fun e => e.1 == name).map (·.2)

def checkStepLimit (v : Value) : Except Failure Nat :=
  let refusal := Except.error
    (v.reportedIn (.configuration ("step_limit must be a positive int, got " ++ v.repr)))
  match v with
  | .int n => if 0 < n then .ok n.toNat else refusal
  | _ => refusal

def checkFlag (name : String) (v : Value) : Except Failure Bool :=
  match v with
  | .bool b => .ok b
  | v => .error (v.reportedIn (.configuration (name ++ " must be a bool, got " ++ v.repr)))

/-- The checked value of a field, or its old value where none is given. -/
def field {α : Type} (given : List (String × Value)) (name : String) (old : α)
    (check : Value → Except Failure α) : Except Failure α :=
  match given? given name with
  | none => .ok old
  | some v => check v

/-- The options `base` with the fields given, checked in the order of the fields. -/
def update (base : RunOptions) (given : List (String × Value)) : Except Failure RunOptions := do
  let flag := fun (name : String) (old : Bool) => field given name old (checkFlag name)
  let stepLimit ← field given "step_limit" base.stepLimit checkStepLimit
  let failOnUnconfigured ← flag "fail_on_unconfigured" base.failOnUnconfigured
  let swallowSpawnErrors ← flag "swallow_spawn_errors" base.swallowSpawnErrors
  let waitForSpawned ← flag "wait_for_spawned" base.waitForSpawned
  let passOnNone ← flag "pass_on_none" base.passOnNone
  let debug ← field given "debug" base.debug DebugOptions.ofValue
  return { stepLimit, failOnUnconfigured, swallowSpawnErrors, waitForSpawned, passOnNone, debug }

/-- Options from a mapping, or the defaults from nothing. -/
def ofValue (v : Value) : Except Failure RunOptions :=
  match v with
  | .null => .ok default
  | .dict m => do
    let given ← m.entries.mapM fun e => match fieldOf? e.1 with
      | some name => Except.ok (name, e.2)
      | none => .error (e.1.reportedIn (.configuration ("unknown option " ++ e.1.repr)))
    default.update given
  | v => .error (.configuration ("options must be a mapping, got " ++ v.typeName))

/-- The options with some fields changed by name. -/
def replace (base : RunOptions) (changes : List (String × Value)) : Except Failure RunOptions := do
  for change in changes do
    if !fieldNames.contains change.1 then
      throw (Refusal.failure (.typed
        ("RunOptions.__init__() got an unexpected keyword argument '" ++ change.1 ++ "'")))
  base.update changes

end RunOptions

end Rehearsal
