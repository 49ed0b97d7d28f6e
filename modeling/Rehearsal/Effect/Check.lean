import Rehearsal.Value.Access
import Rehearsal.Value.LongNumber
import Rehearsal.Value.Object

/-!
# Checks of effect fields

Each check accepts a value for a field or refuses it, naming the field and what it got instead.
-/
namespace Rehearsal.Check

open Value

def mustBe (name what : String) (v : Value) : Refusal :=
  .typed (name ++ " must be " ++ what ++ ", got " ++ v.typeName)

def callable (name : String) (v : Value) : Except Refusal Unit :=
  if v.isCallable then .ok () else .error (mustBe name "callable" v)

/-- The items of a tuple. -/
def tuple (name : String) (v : Value) : Except Refusal (List Value) :=
  match v with
  | .tuple xs => .ok xs
  | v => .error (mustBe name "tuple" v)

/-- A whole number of ticks; truth values do not count as numbers here. -/
def count (name : String) (v : Value) : Except Refusal Nat :=
  match v with
  | .int n =>
    if 0 ≤ n then .ok n.toNat
    else .error (v.shownIn (.typed (name ++ " must be non-negative int, got int=" ++ v.repr)))
  | v => .error (v.shownIn
      (.typed (name ++ " must be non-negative int, got " ++ v.typeName ++ "=" ++ v.repr)))

/-- A configurable wait is a truth value or a tick. -/
def wait (name : String) (v : Value) : Except Refusal Unit :=
  match v with
  | .bool _ => .ok ()
  | v => (count name v).map fun _ => ()

/-- A pattern is the wildcard, an action type, a predicate, or a list of those. -/
def pattern (name : String) (v : Value) : Except Refusal Unit :=
  let accepts : Value → Except Refusal Unit
    | .text _ => .ok ()
    | item =>
      if item.isCallable then .ok ()
      else .error (.typed (name ++ " entries must be str or callable, got " ++ item.typeName))
  match v.items? with
  | some items => items.forM accepts
  | none => accepts v

/-- Effects and generators can be members of a race or a gather. -/
def effectLike (name : String) (v : Value) : Except Refusal Unit :=
  match v with
  | .effect _ | .generator _ => .ok ()
  | v => .error (mustBe name "an effect or a generator" v)

def nonempty (name : String) (xs : List α) : Except Refusal Unit :=
  if xs.isEmpty then .error (.value (name ++ " must not be empty")) else .ok ()

/-- A member of a mapping; the key is written out before the member is looked at. -/
def keyedMember (name : String) (key v : Value) : Except Refusal Unit := do
  key.checkLong
  effectLike (name ++ "[" ++ key.repr ++ "]") v

/-- A non-empty tuple or mapping of effects and generators. -/
def members (name : String) (v : Value) : Except Refusal Members :=
  match v with
  | .dict m => do
    nonempty name m.entries
    m.entries.forM fun e => keyedMember name e.1 e.2
    return .keyed m
  | v => do
    let xs ← tuple name v
    nonempty name xs
    xs.zipIdx.forM fun e => effectLike (name ++ "[" ++ toString e.2 ++ "]") e.1
    return .listed xs

def markerItem (name : String) (v : Value) : Except Refusal Marker :=
  match v with
  | .marker m => .ok m
  | v => .error (.typed (name ++ " entries must be TaskMarker, got " ++ v.typeName))

/-- A marker, or a list, tuple or mapping of markers. -/
def markers (name : String) (v : Value) : Except Refusal Targets :=
  match v with
  | .marker m => .ok (.single m)
  | .list xs => (xs.mapM (markerItem name)).map (.listed false)
  | .tuple xs => (xs.mapM (markerItem name)).map (.listed true)
  | .dict m => (m.entries.mapM fun e => (markerItem name e.2).map fun x => (e.1, x)).map
      (.keyed m.frozen)
  | v => .error (mustBe name "a TaskMarker, a list or a dict of them" v)

end Rehearsal.Check
