import Rehearsal.Value.Filling

/-!
# Operators

Addition, subtraction, multiplication and remainder. Numbers mix freely, texts and sequences
concatenate with their own kind and repeat a whole number of times; every other pair of operands
is refused by the names of their types. A result that is undefined is a new object, so each
operator is told the origin of what it makes.
-/
namespace Rehearsal.Value

open Decimal

def operandRefusal (symbol : String) (a b : Value) : Refusal :=
  .typed ("unsupported operand type(s) for " ++ symbol ++ ": '" ++ a.typeName ++ "' and '" ++
    b.typeName ++ "'")

/-- An operator on two numbers: exact on whole numbers, rounded otherwise. -/
def onNumbers (origin : Origin) (symbol : String) (whole : Int → Int → Int)
    (float : Float → Float → Float) (a b : Value) : Except Refusal Value :=
  match Number.ofValue? a, Number.ofValue? b with
  | some (.whole m), some (.whole n) => .ok (int (whole m n))
  | some m, some n => do return ofFloat (float (← floatOf m) (← floatOf n)) origin
  | _, _ => .error (operandRefusal symbol a b)

def joinRefusal (a b : Value) : Refusal :=
  .typed ("can only concatenate " ++ a.typeName ++ " (not \"" ++ b.typeName ++ "\") to " ++
    a.typeName)

def add (origin : Origin) (a b : Value) : Except Refusal Value :=
  match a, b with
  | text s, text t => .ok (text (s ++ t))
  | list xs, list ys => .ok (list (xs ++ ys))
  | tuple xs, tuple ys => .ok (tuple (xs ++ ys))
  | text _, _ | list _, _ | tuple _, _ => .error (joinRefusal a b)
  | _, _ => onNumbers origin "+" (· + ·) (· + ·) a b

def sub (origin : Origin) (a b : Value) : Except Refusal Value :=
  onNumbers origin "-" (· - ·) (· - ·) a b

/-- A text or sequence repeated `n` times. -/
def repeated (n : Int) : Value → Option Value
  | text s => some (text (String.join (List.replicate n.toNat s)))
  | list xs => some (list (List.replicate n.toNat xs).flatten)
  | tuple xs => some (tuple (List.replicate n.toNat xs).flatten)
  | _ => none

def isText : Value → Bool
  | text _ => true
  | _ => false

def isSequence : Value → Bool
  | text _ | list _ | tuple _ => true
  | _ => false

/-- More items than there is room for. -/
def roomLimit : Nat := Nat.pow 2 40

/-- The size of a text or sequence, zero for any other value. -/
def sequenceSize : Value → Nat
  | text s => s.length
  | list xs | tuple xs => xs.length
  | _ => 0

/-- Repetition of the sequence `s` as many times as `n` says. -/
def repetition (s n : Value) : Except Refusal Value :=
  match n.index? with
  | none => .error (.typed ("can't multiply sequence by non-int of type '" ++ n.typeName ++ "'"))
  | some k =>
    let size := s.sequenceSize * k.toNat
    if k ≥ positions || k < -positions then
      .error (.ofText .overflow "cannot fit 'int' into an index-sized integer")
    else if Int.ofNat size ≥ positions && s.isText then
      .error (.ofText .overflow "repeated string is too long")
    else if size ≥ roomLimit then .error ⟨.memory, []⟩
    else if size == 0 then .ok ((repeated 0 s).getD null)
    else .ok ((repeated k s).getD null)

def mul (origin : Origin) (a b : Value) : Except Refusal Value :=
  if a.isSequence then repetition a b
  else if b.isSequence then repetition b a
  else onNumbers origin "*" (· * ·) (· * ·) a b

/-- The remainder of floats that has the sign of the divisor, taken exactly and rounded once. -/
def floatRemainder (x y : Float) : Float :=
  match Binary.ofFloat? x, Binary.ofFloat? y with
  | some a, some b =>
    let unit := min a.exponent b.exponent
    let r := Int.fmod (a.scaled unit) (b.scaled unit)
    if r == 0 then (if b.negative then -0.0 else 0.0) else nearestFloat r unit
  | some a, none =>
    if y.isNaN then y
    else if a.mantissa == 0 then (if y < 0 then -0.0 else 0.0)
    else if a.negative == (y < 0) then x else y
  | none, _ => Number.undefined

/-- The remainder, or a template filled in. -/
def mod (origin : Origin) (a b : Value) : Except Refusal Value :=
  match a with
  | text s => (fill s b).map text
  | _ =>
    match Number.ofValue? a, Number.ofValue? b with
    | some (.whole m), some (.whole n) =>
      if n == 0 then .error (.ofText .zeroDivision "integer modulo by zero")
      else .ok (int (Int.fmod m n))
    | some m, some n => do
      let x ← floatOf m
      let y ← floatOf n
      if y == 0.0 then .error (.ofText .zeroDivision "float modulo")
      else return ofFloat (floatRemainder x y) origin
    | _, _ => .error (operandRefusal "%" a b)

end Rehearsal.Value
