import Rehearsal.Decimal.Reader
import Rehearsal.Value.Access
import Rehearsal.Value.LongNumber

/-!
# Conversions

What the plain types make of a value. Whole numbers are taken towards zero and read in decimal,
floats are read as their spelling says, and containers are filled with whatever a loop would visit.
-/
namespace Rehearsal.Value

/-- A float without its places. -/
def truncate (x : Float) : Except Refusal Int :=
  match Decimal.Binary.ofFloat? x with
  | some b => .ok (Int.tdiv (b.signed * Int.ofNat (Nat.pow 2 b.exponent.toNat))
    (Int.ofNat (Nat.pow 2 (-b.exponent).toNat)))
  | none =>
    if x.isNaN then .error (.value "cannot convert float NaN to integer")
    else .error (.ofText .overflow "cannot convert float infinity to integer")

/-- The float nearest to a number that is not too large for one. -/
def floatOf (n : Number) : Except Refusal Float :=
  match n with
  | .whole k =>
    let x := n.toFloat
    if x.isInf then .error (.ofText .overflow "int too large to convert to float")
    else if k == 0 then .ok 0.0 else .ok x
  | .float x => .ok x

/-- The refusal of a text that is no whole number. Long texts are not shown to their end. -/
def literalRefusal (base : Nat) (v : Value) : Refusal :=
  .value ("invalid literal for int() with base " ++ toString base ++ ": " ++
    String.ofList (v.repr.toList.take 200))

/-- The whole number a value converts to. -/
def toInt (v : Value) : Except Refusal Value :=
  match v with
  | text s =>
    match Decimal.digitCount s with
    | some count =>
      if count > Decimal.digitLimit then .error (longRefusal (some count))
      else match Decimal.readInt? s with
        | some n => .ok (int n)
        | none => .error (literalRefusal 10 v)
    | none => .error (literalRefusal 10 v)
  | v => match Number.ofValue? v with
    | some (.whole n) => .ok (int n)
    | some (.float x) => (truncate x).map int
    | none => .error (.typed ("int() argument must be a string, a bytes-like object or a real " ++
        "number, not '" ++ v.typeName ++ "'"))

/-- The float a value converts to: a float is its own conversion. -/
def toFloat (origin : Origin) (v : Value) : Except Refusal Value :=
  match v with
  | nan o => .ok (nan o)
  | text s => match Decimal.readFloat? s with
    | some x => .ok (ofFloat x origin)
    | none => .error (.value ("could not convert string to float: " ++ v.repr))
  | v => match Number.ofValue? v with
    | some n => (floatOf n).map float
    | none => .error (.typed ("float() argument must be a string or a real number, not '" ++
        v.typeName ++ "'"))

/-- The whole number that a text denotes in a base; base zero goes by the mark in front. -/
def toIntIn (v base : Value) : Except Refusal Value :=
  match base.index? with
  | none => .error (.typed ("'" ++ base.typeName ++ "' object cannot be interpreted as an integer"))
  | some b =>
    if b != 0 && b < 2 || b > 36 then
      .error (.value "int() base must be >= 2 and <= 36, or 0")
    else match v with
      | text s =>
        if b == 10 then v.toInt
        else match Decimal.readIntIn? b.toNat s with
          | some n => .ok (int n)
          | none => .error (literalRefusal b.toNat v)
      | _ => .error (.typed "int() can't convert non-string with explicit base")

/-- The key and the value that the item at a place of a sequence of pairs makes. -/
def pairAt (place : Nat) (v : Value) : Except Refusal (Value × Value) :=
  match v.elements with
  | .ok [k, x] => do
    k.checkKey
    return (k, x)
  | .ok xs => .error (.value ("dictionary update sequence element #" ++ toString place ++
      " has length " ++ toString xs.length ++ "; 2 is required"))
  | .error _ => .error (.typed ("cannot convert dictionary update sequence element #" ++
      toString place ++ " to a sequence"))

/-- The entries of a mapping, or those that a sequence of pairs makes. -/
def toEntries (v : Value) : Except Refusal (List (Value × Value)) :=
  match v with
  | dict m => .ok m.entries
  | v => do (← v.elements).zipIdx.mapM fun e => pairAt e.2 e.1

end Rehearsal.Value
