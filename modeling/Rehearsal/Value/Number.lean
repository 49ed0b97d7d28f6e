import Rehearsal.Value.Basic
import Rehearsal.Decimal.Binary

/-!
# Numbers among the values

Truth values, whole numbers and floats are one ordered system: comparisons between a whole number
and a float are exact, whatever their size.
-/
namespace Rehearsal

inductive Number where
  | whole (n : Int)
  | float (x : Float)

namespace Number

open Decimal

/-- The float that is no number. -/
def undefined : Float := 0.0 / 0.0

/-- The number a value stands for; truth values count as zero and one. -/
def ofValue? : Value → Option Number
  | .bool b => some (whole (if b then 1 else 0))
  | .int n => some (whole n)
  | .float x => some (float x)
  | .nan _ => some (float undefined)
  | _ => none

/-- The order of a whole number and a float that is a number. -/
def compareWhole (n : Int) (x : Float) : Ordering :=
  match Binary.ofFloat? x with
  | some b => (Binary.ofInt n).compare b
  | none => if x < 0 then .gt else .lt

def eq : Number → Number → Bool
  | whole m, whole n => m == n
  | float x, float y => x == y
  | whole n, float x | float x, whole n => !x.isNaN && compareWhole n x == .eq

def lt : Number → Number → Bool
  | whole m, whole n => m < n
  | float x, float y => x < y
  | whole n, float x => !x.isNaN && compareWhole n x == .lt
  | float x, whole n => !x.isNaN && compareWhole n x == .gt

def le (a b : Number) : Bool := a.lt b || a.eq b

/-- The nearest float. -/
def toFloat : Number → Float
  | whole n => nearestFloat n 0
  | float x => x

end Number

end Rehearsal
