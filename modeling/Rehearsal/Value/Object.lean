import Rehearsal.Value.Basic

/-!
# Lists and dicts that change

The lists and dicts of a script are objects: each has a number, and what it holds can change. Of
such an object a value shows what it held when the value was looked at. `Value.revised` puts in what
is known of the objects since, `Value.bare` leaves their numbers out, and `Value.adopted` makes
objects of the lists and dicts that are none yet.
-/
namespace Rehearsal

mutual

/-- The value with its objects holding what `held?` says. What an object holds takes its place
unless `keep` is set. -/
def Value.revised (held? : Nat → Option Value) (keep : Bool) : Value → Value
  | .object n seen =>
    let v := match held? n with
      | some v => v
      | none => seen.revised held? keep
    if keep then .object n v else v
  | .list xs => .list (revisedAll held? keep xs)
  | .tuple xs => .tuple (revisedAll held? keep xs)
  | .dict ⟨frozen, es⟩ => .dict ⟨frozen, revisedEntries held? keep es⟩
  | .watcher ⟨helper, pattern, worker, args, ticks, o⟩ =>
    .watcher ⟨helper, pattern, worker, revisedAll held? keep args, ticks, o⟩
  | .error ⟨kind, args, o⟩ => .error ⟨kind, revisedAll held? keep args, o⟩
  | .effect e => .effect (e.revised held? keep)
  | v => v

def revisedAll (held? : Nat → Option Value) (keep : Bool) : List Value → List Value
  | [] => []
  | v :: vs => v.revised held? keep :: revisedAll held? keep vs

/-- Keys hold no objects. -/
def revisedEntries (held? : Nat → Option Value) (keep : Bool) :
    List (Value × Value) → List (Value × Value)
  | [] => []
  | (k, v) :: es => (k, v.revised held? keep) :: revisedEntries held? keep es

def revisedNamed (held? : Nat → Option Value) (keep : Bool) :
    List (String × Value) → List (String × Value)
  | [] => []
  | (k, v) :: es => (k, v.revised held? keep) :: revisedNamed held? keep es

def Members.revised (held? : Nat → Option Value) (keep : Bool) : Members → Members
  | .listed xs => .listed (revisedAll held? keep xs)
  | .keyed ⟨frozen, es⟩ => .keyed ⟨frozen, revisedEntries held? keep es⟩

/-- Patterns, the tasks of a join or a cancel, and what an action shows are kept without objects. -/
def Effect.revised (held? : Nat → Option Value) (keep : Bool) : Effect → Effect
  | .call fn args kwargs =>
    .call (fn.revised held? keep) (revisedAll held? keep args) (revisedNamed held? keep kwargs)
  | .fork fn args kwargs detached =>
    .fork (fn.revised held? keep) (revisedAll held? keep args) (revisedNamed held? keep kwargs)
      detached
  | .select fn args => .select (fn.revised held? keep) (revisedAll held? keep args)
  | .race m => .race (m.revised held? keep)
  | .gather m => .gather (m.revised held? keep)
  | .put action object => .put action (object.revised held? keep)
  | .question q key => .question q (key.revised held? keep)
  | e => e

end

namespace Value

/-- The value without objects, as it shows them. -/
def bare (v : Value) : Value := v.revised (fun _ => none) false

/-- What an object holds; any other value is left as it is. -/
def opened : Value → Value
  | object _ v => v
  | v => v

end Value

def Exn.mapArgs (f : Value → Value) (e : Exn) : Exn := { e with args := e.args.map f }

mutual

/-- The value with an object for each list and dict in it that is none yet, numbered from `n` on,
and the number after theirs. -/
def Value.adopted (n : Nat) : Value → Value × Nat
  | .list xs =>
    let (ys, next) := adoptedAll (n + 1) xs
    (.object n (.list ys), next)
  | .tuple xs =>
    let (ys, next) := adoptedAll n xs
    (.tuple ys, next)
  | .dict ⟨false, es⟩ =>
    let (fs, next) := adoptedEntries (n + 1) es
    (.object n (.dict ⟨false, fs⟩), next)
  | .dict ⟨true, es⟩ =>
    let (fs, next) := adoptedEntries n es
    (.dict ⟨true, fs⟩, next)
  | v => (v, n)

def adoptedAll (n : Nat) : List Value → List Value × Nat
  | [] => ([], n)
  | v :: vs =>
    let (w, next) := v.adopted n
    let (ws, next) := adoptedAll next vs
    (w :: ws, next)

def adoptedEntries (n : Nat) : List (Value × Value) → List (Value × Value) × Nat
  | [] => ([], n)
  | (k, v) :: es =>
    let (w, next) := v.adopted n
    let (fs, next) := adoptedEntries next es
    ((k, w) :: fs, next)

end

end Rehearsal
