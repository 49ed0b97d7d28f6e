import Rehearsal.Decimal.Reader
import Rehearsal.Value.Order

/-!
# Numbers too long to write out

Whole numbers are written out in decimal, and read back, only up to a limit on their digits.
-/
namespace Rehearsal

open Decimal (digitLimit)

/-- Whether a number has more digits than are converted. Numbers of so few bits that they cannot
have are not looked at. -/
def isLong (n : Int) : Bool :=
  n.natAbs.log2 ≥ 3 * digitLimit && n.natAbs ≥ Nat.pow 10 digitLimit

def Marker.hasLong (m : Marker) : Bool := isLong m.id

mutual

/-- Whether the literal of a value has a number in it that is too long. -/
def Value.hasLong : Value → Bool
  | .int n => isLong n
  | .list xs | .tuple xs => anyLong xs
  | .dict m => m.hasLong
  | .marker m => m.hasLong
  | .watcher ⟨_, pattern, _, _, _, _⟩ => pattern.hasLong
  | .error ⟨_, args, _⟩ => anyLong args
  | .effect e => e.hasLong
  | .placeholder (.satisfying f) => f.hasLong
  | .object _ v => v.hasLong
  | _ => false

def Mapping.hasLong : Mapping → Bool
  | ⟨_, es⟩ => anyEntryLong es

def anyLong : List Value → Bool
  | [] => false
  | v :: vs => v.hasLong || anyLong vs

def anyEntryLong : List (Value × Value) → Bool
  | [] => false
  | (k, v) :: es => k.hasLong || v.hasLong || anyEntryLong es

def anyNamedLong : List (String × Value) → Bool
  | [] => false
  | (_, v) :: es => v.hasLong || anyNamedLong es

def anyMarkerLong : List (Value × Marker) → Bool
  | [] => false
  | (k, m) :: es => k.hasLong || m.hasLong || anyMarkerLong es

def Members.hasLong : Members → Bool
  | .listed xs => anyLong xs
  | .keyed m => m.hasLong

def Targets.hasLong : Targets → Bool
  | .single m => m.hasLong
  | .listed _ ms => ms.any (·.hasLong)
  | .keyed _ es => anyMarkerLong es

def Effect.hasLong : Effect → Bool
  | .call f args kwargs | .fork f args kwargs _ => f.hasLong || anyLong args || anyNamedLong kwargs
  | .select f args => f.hasLong || anyLong args
  | .race m | .gather m => m.hasLong
  | .join t | .cancel t => t.hasLong
  | .delay n => isLong n
  | .watch _ p | .take p => p.hasLong
  | .put m _ => m.hasLong
  | .question _ k => k.hasLong
  | .cancelSelf | .cancelled => false

end

/-- The refusal to write out a number that is too long, or to read one of `size` digits. -/
def longRefusal (size : Option Nat) : Refusal := .value (Decimal.limitMessage size)

/-- Accepts what can be written out: nothing in it is too long. -/
def checkWritable (long : Bool) : Except Refusal Unit :=
  if long then .error (longRefusal none) else .ok ()

def Value.checkLong (v : Value) : Except Refusal Unit := checkWritable v.hasLong

/-- The refusal `r`, whose text shows `v`. -/
def Value.shownIn (v : Value) (r : Refusal) : Refusal := if v.hasLong then longRefusal none else r

end Rehearsal
