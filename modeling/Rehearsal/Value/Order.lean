import Rehearsal.Value.Equality

/-!
# Order of values

Numbers are ordered by value, texts by code points, lists and tuples by the first items that
are not the same.
Values of other types have no order: asking for one is refused with the names of the two types.
-/
namespace Rehearsal

/-- Why a computation on values was refused: the exception to raise for it. -/
structure Refusal where
  kind : ErrorClass
  args : List Value

namespace Refusal

def ofText (kind : ErrorClass) (message : String) : Refusal := ⟨kind, [.text message]⟩

def typed (message : String) : Refusal := ofText .typed message

def value (message : String) : Refusal := ofText .value message

end Refusal

mutual

/-- Whether `a < b`; the two type names where the values have no order. -/
def Value.lt (a b : Value) : Except (String × String) Bool :=
  match a, b with
  | .text s, .text t => .ok (s < t)
  | .list xs, .list ys => ltAll xs ys
  | .tuple xs, .tuple ys => ltAll xs ys
  | a, b =>
    match Number.ofValue? a, Number.ofValue? b with
    | some m, some n => .ok (m.lt n)
    | _, _ => .error (a.typeName, b.typeName)

/-- The order of two sequences: that of their first difference, or the shorter one first. -/
def ltAll : List Value → List Value → Except (String × String) Bool
  | [], ys => .ok (!ys.isEmpty)
  | _ :: _, [] => .ok false
  | x :: xs, y :: ys => if x.same y then ltAll xs ys else x.lt y

end

namespace Value

def orderRefusal (symbol : String) (types : String × String) : Refusal :=
  .typed ("'" ++ symbol ++ "' not supported between instances of '" ++ types.1 ++ "' and '" ++
    types.2 ++ "'")

/-- `a < b`. -/
def less (a b : Value) : Except Refusal Bool :=
  (a.lt b).mapError (orderRefusal "<")

/-- `a <= b`: equal numbers, texts and sequences count. -/
def lessOrEqual (a b : Value) : Except Refusal Bool :=
  match Number.ofValue? a, Number.ofValue? b with
  | some m, some n => .ok (m.le n)
  | _, _ => (a.lt b).mapError (orderRefusal "<=") |>.map fun r => r || a.same b

/-- Sorted by `<`, stably; refused where two neighbours in the making have no order. -/
def insertSorted (v : Value) : List Value → Except Refusal (List Value)
  | [] => .ok [v]
  | w :: ws => do
    if ← v.less w then return v :: w :: ws
    return w :: (← insertSorted v ws)

def sort : List Value → Except Refusal (List Value)
  | [] => .ok []
  | v :: vs => do insertSorted v (← sort vs)

end Value

end Rehearsal
