import Rehearsal.Value.Render

/-!
# Access to containers

Subscripts, membership, sizes, and which values can be keys. Each operation says exactly why it
refuses an operand.
-/
namespace Rehearsal

mutual

/-- The name of the type that keeps a value from being a key, if any: plain mappings and lists,
and whatever holds one. -/
def Value.unhashable? : Value → Option String
  | .list _ => some "list"
  | .tuple xs => anyUnhashable? xs
  | .dict ⟨false, _⟩ => some "dict"
  | .dict ⟨true, es⟩ => entryUnhashable? es
  | .effect e => e.unhashable?
  | .placeholder (.satisfying f) => f.unhashable?
  | .object _ v => v.unhashable?
  | _ => none

def anyUnhashable? : List Value → Option String
  | [] => none
  | v :: vs => match v.unhashable? with
    | some t => some t
    | none => anyUnhashable? vs

def entryUnhashable? : List (Value × Value) → Option String
  | [] => none
  | (_, v) :: es => match v.unhashable? with
    | some t => some t
    | none => entryUnhashable? es

def Members.unhashable? : Members → Option String
  | .listed xs => anyUnhashable? xs
  | .keyed ⟨false, _⟩ => some "dict"
  | .keyed ⟨true, es⟩ => entryUnhashable? es

def Effect.unhashable? : Effect → Option String
  | .call _ args _ | .fork _ args _ _ => match anyUnhashable? args with
    | some t => some t
    | none => some "dict"
  | .select _ args => anyUnhashable? args
  | .race m | .gather m => m.unhashable?
  | .join (.listed false _) | .cancel (.listed false _) => some "list"
  | .join (.keyed false _) | .cancel (.keyed false _) => some "dict"
  | .watch _ p | .take p => p.unhashable?
  | .put ⟨false, _⟩ _ => some "dict"
  | .put ⟨true, es⟩ _ => entryUnhashable? es
  | .question _ k => k.unhashable?
  | _ => none

end

namespace Value

/-- Accepts what can be a key. -/
def checkKey (v : Value) : Except Refusal Unit :=
  match v.unhashable? with
  | some t => .error (.typed ("unhashable type: '" ++ t ++ "'"))
  | none => .ok ()

/-- The position that `i` names in a sequence of `n` items; negative numbers count from the
end. -/
def position? (n : Nat) (i : Int) : Option Nat :=
  let j := if i < 0 then i + Int.ofNat n else i
  if 0 ≤ j && j < Int.ofNat n then some j.toNat else none

/-- The whole number an index is. -/
def index? : Value → Option Int
  | bool b => some (if b then 1 else 0)
  | int n => some n
  | _ => none

def indexRefusal (what needs : String) (i : Value) : Refusal :=
  .typed (what ++ " indices must be integers" ++ needs ++ ", not " ++ i.typeName)

/-- No sequence has as many positions as this. -/
def positions : Int := 9223372036854775808

/-- Accepts numbers that can be positions at all. -/
def checkIndex (n : Int) : Except Refusal Unit :=
  if n < positions && -positions ≤ n then .ok ()
  else .error (.ofText .index "cannot fit 'int' into an index-sized integer")

/-- The item of a sequence that `i` names. -/
def itemAt {α : Type} (what : String) (xs : List α) (i : Value) : Except Refusal α :=
  match i.index? with
  | none => .error (indexRefusal what " or slices" i)
  | some n => do
    checkIndex n
    match (position? xs.length n).bind fun j => xs[j]? with
    | some x => .ok x
    | none => .error (.ofText .index (what ++ " index out of range"))

/-- `v[k]`. -/
def subscript (v k : Value) : Except Refusal Value :=
  match v with
  | list xs => itemAt "list" xs k
  | tuple xs => itemAt "tuple" xs k
  | text s => match k.index? with
    | none => .error (.typed ("string indices must be integers, not '" ++ k.typeName ++ "'"))
    | some _ => (itemAt "string" s.toList k).map fun c => text (String.singleton c)
  | dict m => do
    k.checkKey
    match m.get? k with
    | some x => .ok x
    | none => .error ⟨.key, [k]⟩
  | typeRef t => .error (.typed ("type '" ++ t.name ++ "' is not subscriptable"))
  | v => .error (.typed ("'" ++ v.typeName ++ "' object is not subscriptable"))

/-- What a list or a dict holds after `v[k] = x`. -/
def assignItem (v k x : Value) : Except Refusal Value :=
  match v with
  | list xs => match k.index? with
    | none => .error (indexRefusal "list" " or slices" k)
    | some n => do
      checkIndex n
      match position? xs.length n with
      | some j => .ok (list (xs.set j x))
      | none => .error (.ofText .index "list assignment index out of range")
  | dict m =>
    if m.frozen then .error (.typed "'frozendict' object doesn't support item assignment")
    else do
      k.checkKey
      return dict ⟨false, Mapping.insertEntry m.entries k x⟩
  | v => .error (.typed ("'" ++ v.typeName ++ "' object does not support item assignment"))

/-- Whether the characters `xs` occur within `ys`. -/
def occursIn (xs : List Char) : List Char → Bool
  | [] => xs.isEmpty
  | y :: ys => xs.isPrefixOf (y :: ys) || occursIn xs ys

/-- `a in b`. -/
def contains (b a : Value) : Except Refusal Bool :=
  match b with
  | list xs | tuple xs => .ok (xs.any fun x => x.same a)
  | dict m => do
    a.checkKey
    return m.hasKey a
  | text t => match a with
    | text s => .ok (occursIn s.toList t.toList)
    | a => .error (.typed ("'in <string>' requires string as left operand, not " ++ a.typeName))
  | b => .error (.typed ("argument of type '" ++ b.typeName ++ "' is not iterable"))

/-- The number of items or characters. -/
def length (v : Value) : Except Refusal Nat :=
  match v with
  | text s => .ok s.length
  | list xs | tuple xs => .ok xs.length
  | dict m => .ok m.entries.length
  | v => .error (.typed ("object of type '" ++ v.typeName ++ "' has no len()"))

/-- What a loop over the value visits. -/
def elements (v : Value) : Except Refusal (List Value) :=
  match v with
  | list xs | tuple xs => .ok xs
  | dict m => .ok m.keys
  | text s => .ok (s.toList.map fun c => text (String.singleton c))
  | object _ v => v.elements
  | v => .error (.typed ("'" ++ v.typeName ++ "' object is not iterable"))

/-- The name of the type that a loop visits the value by. -/
def iteratorName : Value → String
  | list _ => "list_iterator"
  | tuple _ => "tuple_iterator"
  | text s => if s.toList.all fun c => c.toNat < 128 then "str_ascii_iterator" else "str_iterator"
  | object _ v => v.iteratorName
  | _ => "dict_keyiterator"

/-- What a loop over the value draws its items from: a list of a script, which may change under it,
or else the items as they are. -/
def source (v : Value) : Except Refusal Value :=
  match v with
  | object n (list xs) => .ok (object n (list xs))
  | v => v.elements.map tuple

end Value

/-- Arguments given by name, the last of one name counting in the place of the first. -/
def lastOfName (given : List (String × Value)) : List (String × Value) :=
  given.foldl
    (fun acc e =>
      if acc.any fun x => x.1 == e.1 then acc.map fun x => if x.1 == e.1 then e else x
      else acc ++ [e])
    []

end Rehearsal
