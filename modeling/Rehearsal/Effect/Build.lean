import Rehearsal.Effect.Check

/-!
# Building effects

The ways a script writes an effect. `Constructor.build` checks the fields in their order and
refuses the first that does not fit. Arguments stay the objects they are, patterns are kept as they
stand.
-/
namespace Rehearsal

/-- The classes an effect can be built of field by field. -/
inductive EffectClass where
  | call | fork | select | race | gather | join | cancel | delay | watch | put | take
  deriving DecidableEq

namespace EffectClass

def name : EffectClass → String
  | call => "CallEffect"
  | fork => "ForkEffect"
  | select => "SelectEffect"
  | race => "RaceEffect"
  | gather => "AllEffect"
  | join => "JoinEffect"
  | cancel => "CancelEffect"
  | delay => "DelayEffect"
  | watch => "WatchEffect"
  | put => "PutEffect"
  | take => "TakeEffect"

def ofName? (s : String) : Option EffectClass :=
  [call, fork, select, race, gather, join, cancel, delay, watch, put, take].find?
    fun c => c.name == s

/-- The names of the fields, and how many of them have to be given. -/
def fields : EffectClass → List String × Nat
  | call => (["fn", "args", "kwargs"], 1)
  | fork => (["fn", "args", "kwargs", "detached"], 1)
  | select => (["selector", "args"], 1)
  | race | gather => (["members"], 1)
  | join => (["targets"], 1)
  | cancel => (["targets"], 0)
  | delay => (["ticks"], 1)
  | watch => (["helper", "pattern"], 1)
  | put => (["action"], 1)
  | take => (["pattern"], 0)

end EffectClass

/-- A list of names inside a sentence. -/
def enumeration : List String → String
  | [] => ""
  | [a] => a
  | [a, b] => a ++ " and " ++ b
  | a :: rest => a ++ ", " ++ enumerationTail rest
where
  enumerationTail : List String → String
    | [] => ""
    | [a] => "and " ++ a
    | a :: rest => a ++ ", " ++ enumerationTail rest

/-- Refuses too few or too many of the fields `names`, of which the first `required` have to be
given. -/
def checkArity (label : String) (names : List String) (required given : Nat) :
    Except Refusal Unit :=
  if given < required then
    let missing := (names.take required).drop given
    let plural := if missing.length == 1 then "" else "s"
    .error (.typed (label ++ ".__init__() missing " ++ toString missing.length ++
      " required positional argument" ++ plural ++ ": " ++
      enumeration (missing.map fun n => "'" ++ n ++ "'")))
  else if names.length < given then
    let most := names.length + 1
    let least := required + 1
    let range := if least == most then toString most else
      "from " ++ toString least ++ " to " ++ toString most
    let plural := if most == 1 then "" else "s"
    .error (.typed (label ++ ".__init__() takes " ++ range ++ " positional argument" ++ plural ++
      " but " ++ toString (given + 1) ++ " were given"))
  else .ok ()

/-- Arguments given by name, read off a mapping. -/
def namedArguments (v : Value) : List (String × Value) :=
  match v with
  | .dict m => m.entries.filterMap fun
    | (.text k, x) => some (k, x)
    | _ => none
  | _ => []

def helperRefusal (v : Value) : Refusal :=
  v.shownIn (.value ("helper must be one of " ++
    tupleLiteral (Helper.all.map fun h => Text.quoted h.name) ++ ", got " ++ v.repr))

def buildWatch (helper pattern : Value) : Except Refusal Effect :=
  match helper with
  | .text s => match Helper.ofName? s with
    | some h => do
      Check.pattern "pattern" pattern.bare
      return .watch h pattern.bare
    | none => .error (helperRefusal helper)
  | helper => .error (helperRefusal helper)

def actionRefusal (v : Value) : Refusal :=
  v.shownIn (.typed ("action must be a mapping with a 'type' key, got " ++ v.repr))

def buildPut (action : Value) : Except Refusal Effect :=
  match action.bare with
  | .dict m =>
    if m.hasKey (.text "type") then .ok (.put m action) else .error (actionRefusal action)
  | _ => .error (actionRefusal action)

/-- An effect from the values of its fields, in their order; fields left out have their
defaults. -/
def EffectClass.build (c : EffectClass) (given : List Value) : Except Refusal Effect := do
  let (names, required) := c.fields
  checkArity c.name names required given.length
  let whole := fun i (absent : Value) => (given[i]?).getD absent
  let field := fun i (absent : Value) => (whole i absent).opened
  match c with
  | call =>
    Check.callable "fn" (field 0 .null)
    let args ← Check.tuple "args" (field 1 (.tuple []))
    return .call (field 0 .null) args (namedArguments (field 2 .null))
  | fork =>
    Check.callable "fn" (field 0 .null)
    let args ← Check.tuple "args" (field 1 (.tuple []))
    return .fork (field 0 .null) args (namedArguments (field 2 .null)) (field 3 .null).truthy
  | select =>
    Check.callable "selector" (field 0 .null)
    let args ← Check.tuple "args" (field 1 (.tuple []))
    return .select (field 0 .null) args
  | race => return .race (← Check.members "members" (field 0 .null))
  | gather => return .gather (← Check.members "members" (field 0 .null))
  | join => return .join (← Check.markers "targets" (field 0 .null))
  | cancel => match field 0 .null with
    | .null => return .cancelSelf
    | v => return .cancel (← Check.markers "targets" v)
  | delay => return .delay (← Check.count "ticks" (field 0 .null))
  | watch => buildWatch (field 0 .null) (field 1 (.text "*"))
  | put => buildPut (whole 0 .null)
  | take =>
    let pattern := (field 0 (.text "*")).bare
    Check.pattern "pattern" pattern
    return .take pattern

/-- Members given one by one, as one list, or as one mapping. -/
def shapeMembers : List Value → Value
  | [.dict m] => .dict ⟨false, m.entries⟩
  | [.list xs] | [.tuple xs] => .tuple xs
  | xs => .tuple xs

/-- A task that watches with `helper`. -/
def buildWatcher (helper : Helper) (pattern worker : Value) (args : List Value) (ticks : Value)
    (origin : Origin) : Except Refusal Effect := do
  Check.callable "worker" worker
  let n ← Check.count "ticks" ticks
  Check.pattern "pattern" pattern.bare
  return .fork (.watcher ⟨helper, pattern.bare, worker, args, n, origin⟩) [] [] false

/-- How a script writes an effect. -/
inductive Constructor where
  /-- The function, its positional arguments, and its arguments by these names. -/
  | call (names : List String)
  | fork (names : List String) (detached : Bool)
  /-- A selector and its arguments. -/
  | select
  | race
  | gather
  | cancelled
  /-- The pattern, the worker and its arguments, after the ticks where the helper has any. -/
  | watcher (helper : Helper)
  | question (q : Question)
  /-- The fields of a class in their order. -/
  | fields (c : EffectClass)

namespace Constructor

/-- Positional arguments and those by name, out of one list that ends in the latter. -/
def splitNamed (names : List String) (args : List Value) : List Value × List (String × Value) :=
  let n := args.length - names.length
  (args.take n, lastOfName (names.zip (args.drop n)))

/-- The effect written with the values `given`; `origin` identifies a watcher made on the way. -/
def build (origin : Origin) : Constructor → List Value → Except Refusal Effect
  | call names, fn :: rest => do
    Check.callable "fn" fn
    let (args, kwargs) := splitNamed names rest
    return .call fn args kwargs
  | fork names detached, fn :: rest => do
    Check.callable "fn" fn
    let (args, kwargs) := splitNamed names rest
    return .fork fn args kwargs detached
  | select, fn :: args => do
    Check.callable "selector" fn
    return .select fn args
  | race, given => EffectClass.race.build [shapeMembers (given.map .opened)]
  | gather, given => EffectClass.gather.build [shapeMembers (given.map .opened)]
  | cancelled, _ => .ok .cancelled
  | watcher .debounce, ticks :: pattern :: worker :: args =>
    buildWatcher .debounce pattern worker args ticks origin
  | watcher .throttle, ticks :: pattern :: worker :: args => do
    let _ ← Check.count "ticks" ticks
    buildWatcher .throttle pattern worker args (.int 0) origin
  | watcher helper, pattern :: worker :: args =>
    buildWatcher helper pattern worker args (.int 0) origin
  | question q, key :: _ => .ok (.question q key)
  | fields c, given => c.build given
  | _, _ => .error (.typed "missing a required positional argument")

end Constructor

end Rehearsal
