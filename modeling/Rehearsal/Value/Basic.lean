import Rehearsal.Task.Wait
import Rehearsal.Value.ErrorClass

/-!
# Values, exceptions and effects

The values that scripted tasks compute with, the exceptions they raise and the effects they
yield. What can only be told apart by identity carries it: exceptions, watchers, callable objects
and undefined numbers the place they were made at, generators their number, and the lists and dicts
of a script, which can change, a number beside what they hold.
-/
namespace Rehearsal

/-- Where an object with identity was made. Two such objects are the same exactly if their
origins are. -/
inductive Origin where
  /-- The `n`-th object among the constants that a bench or a script is given. -/
  | constant (n : Nat)
  /-- The `n`-th object among a script's constants, as the evaluation `use` made it. -/
  | evaluated (n use : Nat)
  /-- The `n`-th object made while a script ran. -/
  | script (n : Nat)
  /-- Made by the scheduler while its step counter stood at `steps`. -/
  | scheduler (steps : Nat)
  deriving DecidableEq

/-- What a named function does when it is called. -/
inductive FunctionKind where
  /-- Yields a generator. -/
  | generator
  | plain
  /-- Never runs: a call of it is a call effect to be answered by the bench. -/
  | standIn
  /-- A selector whose value the bench configures under `id`. -/
  | selector (id : String)
  deriving DecidableEq

/-- A function of a script, by name. -/
structure Function where
  name : String
  kind : FunctionKind
  deriving DecidableEq

/-- The name a function reports. -/
def Function.label (f : Function) : String :=
  match f.kind with
  | .selector id => "mock_" ++ id
  | _ => f.name

/-- A task's handle in the hands of scripts. A handle that is not `own` belongs to no task of the
run. -/
structure Marker where
  id : Nat
  name : String
  own : Bool

/-- The helpers that watch for an action and fork a worker for it. -/
inductive Helper where
  | takeEvery | takeLatest | takeLeading | debounce | throttle
  deriving DecidableEq

namespace Helper

def name : Helper → String
  | takeEvery => "take_every"
  | takeLatest => "take_latest"
  | takeLeading => "take_leading"
  | debounce => "debounce"
  | throttle => "throttle"

def all : List Helper := [takeEvery, takeLatest, takeLeading, debounce, throttle]

def ofName? (s : String) : Option Helper := all.find? fun h => h.name == s

end Helper

/-- Effects that only handlers registered for them understand; `askTwice` inherits from `ask`. -/
inductive Question where
  | ask | askTwice | tell
  deriving DecidableEq

namespace Question

def name : Question → String
  | ask => "Ask"
  | askTwice => "AskTwice"
  | tell => "Tell"

def ofName? (s : String) : Option Question := [ask, askTwice, tell].find? fun q => q.name == s

end Question

mutual

/-- Values of scripts. -/
inductive Value where
  | null
  | bool (b : Bool)
  | int (n : Int)
  /-- A float that is a number or infinite. -/
  | float (x : Float)
  /-- An undefined number. It equals nothing, and containers know it by its origin. -/
  | nan (origin : Origin)
  | text (s : String)
  | list (items : List Value)
  | tuple (items : List Value)
  | dict (m : Mapping)
  | marker (m : Marker)
  | tier (t : WaitTier)
  | typeRef (t : TypeName)
  | function (f : Function)
  /-- A callable object that calls `f`. -/
  | predicate (f : Function) (origin : Origin)
  | watcher (w : Watcher)
  | generator (id : Nat)
  | error (e : Exn)
  | effect (e : Effect)
  | placeholder (p : Placeholder)
  /-- What a stand-in selector returns: the value configured under `name`. -/
  | selection (name : String)
  /-- The `n`-th list or dict of a script, with what it held when it was looked at. -/
  | object (n : Nat) (seen : Value)

/-- Keys and values in insertion order, no two keys equal. A frozen mapping is hashable when its
values are. -/
structure Mapping where
  frozen : Bool
  entries : List (Value × Value)

/-- An exception object. -/
structure Exn where
  kind : ErrorClass
  args : List Value
  origin : Origin

/-- Accepts any of several received values in place of one expected value. -/
inductive Placeholder where
  | anything
  | anyTask
  /-- Instances of one type, or of any of several. -/
  | instanceOf (t : TypeName)
  | instanceOfAny (ts : List TypeName)
  | satisfying (predicate : Value)

/-- The generator function of a watching task. -/
structure Watcher where
  helper : Helper
  pattern : Value
  worker : Value
  args : List Value
  ticks : Nat
  origin : Origin

/-- Members of a race or a gather. -/
inductive Members where
  | listed (items : List Value)
  | keyed (m : Mapping)

/-- Tasks named by a join or a cancel. -/
inductive Targets where
  | single (m : Marker)
  | listed (asTuple : Bool) (ms : List Marker)
  | keyed (frozen : Bool) (entries : List (Value × Marker))

/-- What a task asks of the scheduler. -/
inductive Effect where
  | call (fn : Value) (args : List Value) (kwargs : List (String × Value))
  | fork (fn : Value) (args : List Value) (kwargs : List (String × Value)) (detached : Bool)
  | select (selector : Value) (args : List Value)
  | race (members : Members)
  | gather (members : Members)
  | join (targets : Targets)
  | cancel (targets : Targets)
  | cancelSelf
  | cancelled
  | delay (ticks : Nat)
  | watch (helper : Helper) (pattern : Value)
  /-- Dispatches `object`, which shows as `action`. -/
  | put (action : Mapping) (object : Value)
  | take (pattern : Value)
  | question (q : Question) (key : Value)

end

/-- An action that is dispatched: what it shows, and the dict or mapping that it is. -/
structure Dispatched where
  action : Mapping
  object : Value

instance : Inhabited Value := ⟨.null⟩

/-- The kinds of effect the scheduler tells apart. -/
inductive EffectKind where
  | inlineCall | runConcurrently | join | race | gather | cancel | isCancelled | delay | external
  deriving DecidableEq

def EffectKind.name : EffectKind → String
  | inlineCall => "inline-call"
  | runConcurrently => "run-concurrently"
  | join => "join"
  | race => "race"
  | gather => "all"
  | cancel => "cancel"
  | isCancelled => "is-cancelled"
  | delay => "delay"
  | external => "external"

namespace Effect

def kind : Effect → EffectKind
  | call .. => .inlineCall
  | fork .. => .runConcurrently
  | join .. => .join
  | race .. => .race
  | gather .. => .gather
  | cancel .. | cancelSelf => .cancel
  | cancelled => .isCancelled
  | delay .. => .delay
  | select .. | watch .. | put .. | take .. | question .. => .external

/-- The class name of the effect. -/
def className : Effect → String
  | call .. => "CallEffect"
  | fork .. => "ForkEffect"
  | select .. => "SelectEffect"
  | race .. => "RaceEffect"
  | gather .. => "AllEffect"
  | join .. => "JoinEffect"
  | cancel .. | cancelSelf => "CancelEffect"
  | cancelled => "CancelledEffect"
  | delay .. => "DelayEffect"
  | watch .. => "WatchEffect"
  | put .. => "PutEffect"
  | take .. => "TakeEffect"
  | question q _ => q.name

/-- The classes a handler of the effect may be registered for, nearest first. -/
def classes : Effect → List String
  | question .askTwice _ => ["AskTwice", "Ask", "EffectBase"]
  | e => [e.className, "EffectBase"]

end Effect

namespace Value

/-- The value of a float, made at `origin`. -/
def ofFloat (x : Float) (origin : Origin) : Value := if x.isNaN then nan origin else float x

/-- The name of a value's type. -/
def typeName : Value → String
  | null => "NoneType"
  | bool _ => "bool"
  | int _ => "int"
  | float _ | nan _ => "float"
  | text _ => "str"
  | list _ => "list"
  | tuple _ => "tuple"
  | dict m => if m.frozen then "frozendict" else "dict"
  | marker _ => "TaskMarker"
  | tier _ => "WaitTier"
  | typeRef _ => "type"
  | function _ => "function"
  | predicate .. => "Pred"
  | watcher _ => "Watcher"
  | generator _ => "generator"
  | error e => e.kind.name
  | effect e => e.className
  | placeholder .anything => "_Any"
  | placeholder .anyTask => "_TaskPlaceholder"
  | placeholder (.instanceOf _) | placeholder (.instanceOfAny _) => "OfType"
  | placeholder (.satisfying _) => "Matching"
  | selection _ => "MockedSelection"
  | object _ v => v.typeName

/-- Nothing, zero and the empty containers are false; everything else is true. -/
def truthy : Value → Bool
  | null => false
  | bool b => b
  | int n => n != 0
  | float x => !(x == 0.0)
  | text s => s != ""
  | list xs | tuple xs => !xs.isEmpty
  | dict m => !m.entries.isEmpty
  | object _ v => v.truthy
  | _ => true

/-- Whether the value is of type `t` or of one below it. -/
def isInstance (v : Value) (t : TypeName) : Bool :=
  match t, v with
  | .object, _ => true
  | .int, int _ | .int, bool _ => true
  | .bool, bool _ => true
  | .float, float _ | .float, nan _ => true
  | .text, text _ => true
  | .list, list _ => true
  | .tuple, tuple _ => true
  | .dict, dict _ => true
  | .frozenDict, dict m => m.frozen
  | .null, null => true
  | .marker, marker _ => true
  | .error c, error e => e.kind.isSubclass c
  | t, object _ v => v.isInstance t
  | _, _ => false

/-- Whether the value can be called. -/
def isCallable : Value → Bool
  | function _ | predicate .. | watcher _ | typeRef _ => true
  | _ => false

/-- The name a call of the value goes by: the callable's own name, or its type's where it has
none. -/
def callName : Value → String
  | function f => if f.label == "" then "function" else f.label
  | watcher w => w.helper.name
  | typeRef t => t.name
  | v => v.typeName

/-- The items of a list or tuple. -/
def items? : Value → Option (List Value)
  | list xs | tuple xs => some xs
  | _ => none

def isNull : Value → Bool
  | null => true
  | _ => false

def ofWait : Wait → Value
  | .now => bool false
  | .last => bool true
  | .tick n => int n
  | .tier t => tier t

/-- The wait state a value spells. -/
def wait? : Value → Option Wait
  | bool false => some .now
  | bool true => some .last
  | int n => some (.tick n)
  | tier t => some (.tier t)
  | _ => none

theorem wait?_ofWait (w : Wait) : (ofWait w).wait? = some w := by cases w <;> rfl

end Value

end Rehearsal
