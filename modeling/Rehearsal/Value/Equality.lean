import Rehearsal.Value.Number

/-!
# Equality of values

Numbers are equal by value across their types, lists and tuples item by item but never to each
other, mappings by their items in any order, markers by their task, effects of one class by their
fields, and objects with identity only to themselves. Whatever holds values takes two of them for
the same if they are equal or one object: `Value.same` relates every value to itself, `Value.eq`
every value but the undefined numbers.
-/
namespace Rehearsal

mutual

/-- Whether containers take two values for the same: where they are equal, or one object. Among
the values only undefined numbers are the same without being equal. -/
def Value.same : Value → Value → Bool
  | .null, .null => true
  | .bool a, b => match Number.ofValue? b with
    | some n => (Number.whole (if a then 1 else 0)).eq n
    | none => false
  | .int a, b => match Number.ofValue? b with
    | some n => (Number.whole a).eq n
    | none => false
  | .float a, b => match Number.ofValue? b with
    | some n => (Number.float a).eq n
    | none => false
  | .nan o, .nan p => o == p
  | .text a, .text b => a == b
  | .list xs, .list ys => sameAll xs ys
  | .tuple xs, .tuple ys => sameAll xs ys
  | .dict m, .dict n => m.same n
  | .marker a, .marker b => a.id == b.id
  | .tier a, .tier b => a == b
  | .typeRef a, .typeRef b => a == b
  | .function f, .function g => f == g
  | .predicate f o, .predicate g p => f == g && o == p
  | .watcher v, .watcher w => v.origin == w.origin
  | .generator a, .generator b => a == b
  | .error a, .error b => a.origin == b.origin
  | .effect a, .effect b => a.same b
  | .placeholder p, .placeholder q => p.same q
  | .selection a, .selection b => a == b
  | .object m _, .object n _ => m == n
  | _, _ => false

/-- Whether the lists have one length and are the same item by item. -/
def sameAll : List Value → List Value → Bool
  | [], [] => true
  | x :: xs, y :: ys => x.same y && sameAll xs ys
  | _, _ => false

/-- Whether each entry has the same one among `es`. -/
def sameEntries : List (Value × Value) → List (Value × Value) → Bool
  | [], _ => true
  | (k, v) :: rest, es => es.any (fun e => k.same e.1 && v.same e.2) && sameEntries rest es

def Mapping.same : Mapping → Mapping → Bool
  | ⟨_, es⟩, n => es.length == n.entries.length && sameEntries es n.entries

def Placeholder.same : Placeholder → Placeholder → Bool
  | .anything, .anything => true
  | .anyTask, .anyTask => true
  | .instanceOf t, .instanceOf u => t == u
  | .instanceOfAny ts, .instanceOfAny us => ts == us
  | .satisfying f, .satisfying g => f.same g
  | _, _ => false

def Members.same : Members → Members → Bool
  | .listed xs, .listed ys => sameAll xs ys
  | .keyed m, .keyed n => m.same n
  | _, _ => false

/-- Whether each argument given by name has the same one among `es`. -/
def sameNamed : List (String × Value) → List (String × Value) → Bool
  | [], _ => true
  | (k, v) :: rest, es => es.any (fun e => k == e.1 && v.same e.2) && sameNamed rest es

def sameMarkers : List (Value × Marker) → List (Value × Marker) → Bool
  | [], _ => true
  | (k, m) :: rest, es => es.any (fun e => k.same e.1 && m.id == e.2.id) && sameMarkers rest es

def Targets.same : Targets → Targets → Bool
  | .single a, .single b => a.id == b.id
  | .listed s as, .listed t bs => s == t && as.map (·.id) == bs.map (·.id)
  | .keyed _ es, .keyed _ fs => es.length == fs.length && sameMarkers es fs
  | _, _ => false

def Effect.same : Effect → Effect → Bool
  | .call f as ks, .call g bs ls =>
    f.same g && sameAll as bs && ks.length == ls.length && sameNamed ks ls
  | .fork f as ks d, .fork g bs ls e =>
    f.same g && sameAll as bs && ks.length == ls.length && sameNamed ks ls && d == e
  | .select f as, .select g bs => f.same g && sameAll as bs
  | .race m, .race n => m.same n
  | .gather m, .gather n => m.same n
  | .join t, .join u => t.same u
  | .cancel t, .cancel u => t.same u
  | .cancelSelf, .cancelSelf => true
  | .cancelled, .cancelled => true
  | .delay m, .delay n => m == n
  | .watch h p, .watch i q => h == i && p.same q
  | .put m _, .put n _ => m.same n
  | .take p, .take q => p.same q
  | .question q k, .question r l => q == r && k.same l
  | _, _ => false

end

/-- Whether two values are equal. An undefined number does not even equal itself. -/
def Value.eq (a b : Value) : Bool :=
  match a, b with
  | .nan _, _ | _, .nan _ => false
  | a, b => a.same b

namespace Mapping

/-- The value stored under the key `k`. -/
def get? (m : Mapping) (k : Value) : Option Value :=
  (m.entries.find? fun e => k.same e.1).map (·.2)

def hasKey (m : Mapping) (k : Value) : Bool := (m.get? k).isSome

def keys (m : Mapping) : List Value := m.entries.map (·.1)

/-- The value stored under the text `k`. -/
def getText? (m : Mapping) (k : String) : Option Value := m.get? (.text k)

/-- Entries with `k` set to `v`: in place where the key is present, at the end otherwise. -/
def insertEntry (es : List (Value × Value)) (k v : Value) : List (Value × Value) :=
  if es.any fun e => k.same e.1 then es.map fun e => if k.same e.1 then (e.1, v) else e
  else es ++ [(k, v)]

/-- The mapping that the pairs build from left to right. -/
def ofList (frozen : Bool) (es : List (Value × Value)) : Mapping :=
  ⟨frozen, es.foldl (fun acc e => insertEntry acc e.1 e.2) []⟩

end Mapping

/-- Whether a mapping has a type, as every action does. -/
def Value.isAction : Value → Bool
  | .dict m => m.hasKey (.text "type")
  | _ => false

end Rehearsal
