import Rehearsal.Value.Basic

/-!
# Copies of values

A constant of a script denotes a new object each time it is evaluated. `Value.renewed` gives the
objects among a constant the origins of one evaluation; two evaluations share none of them.

A frozen value has no mutable part left: its mappings are frozen and its lists are tuples, all the
way down.
-/
namespace Rehearsal

/-- The origin of a constant's object in the evaluation `use`. -/
def Origin.renewed (use : Nat) : Origin → Origin
  | .constant n => .evaluated n use
  | o => o

mutual

/-- The constant as the evaluation `use` makes it. Constants hold neither effects nor watchers. -/
def Value.renewed (use : Nat) : Value → Value
  | .nan o => .nan (o.renewed use)
  | .predicate f o => .predicate f (o.renewed use)
  | .error e => .error (e.renewed use)
  | .list xs => .list (renewedAll use xs)
  | .tuple xs => .tuple (renewedAll use xs)
  | .dict ⟨frozen, es⟩ => .dict ⟨frozen, renewedEntries use es⟩
  | .placeholder (.satisfying v) => .placeholder (.satisfying (v.renewed use))
  | v => v

def Exn.renewed (use : Nat) : Exn → Exn
  | ⟨kind, args, o⟩ => ⟨kind, renewedAll use args, o.renewed use⟩

def renewedAll (use : Nat) : List Value → List Value
  | [] => []
  | v :: vs => v.renewed use :: renewedAll use vs

def renewedEntries (use : Nat) : List (Value × Value) → List (Value × Value)
  | [] => []
  | (k, v) :: es => (k.renewed use, v.renewed use) :: renewedEntries use es

end

mutual

/-- The frozen form of a value. -/
def Value.freeze : Value → Value
  | .list xs | .tuple xs => .tuple (freezeAll xs)
  | .dict ⟨_, es⟩ => .dict ⟨true, freezeEntries es⟩
  | v => v

def freezeAll : List Value → List Value
  | [] => []
  | v :: vs => v.freeze :: freezeAll vs

/-- Keys are left as they are. -/
def freezeEntries : List (Value × Value) → List (Value × Value)
  | [] => []
  | (k, v) :: es => (k, v.freeze) :: freezeEntries es

end

end Rehearsal
