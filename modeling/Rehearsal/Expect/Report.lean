import Rehearsal.Failure
import Rehearsal.Diff.Unified

/-!
# Reports of unmet expectations

An expectation is met when what it expects happened as often as it says; one that names no number
expects it at least once. The report of an unmet one lists what was received instead.
-/
namespace Rehearsal

/-- How often something expected `times` times is still missing or too much. -/
def isUnmet (times : Option Nat) (count : Nat) : Bool :=
  match times with
  | none => count == 0
  | some n => n != count

/-- The number of times in words. -/
def describeTimes : Option Nat → String
  | none => "at least one"
  | some n => toString n

/-- The check of a configured number of times. -/
def checkTimes (place : String) (v : Value) : Except Failure (Option Nat) :=
  let refusal := Except.error (v.reportedIn
    (.configuration (place ++ ": times must be a non-negative int, got " ++ v.repr)))
  match v with
  | .null => .ok none
  | .int n => if 0 ≤ n then .ok (some n.toNat) else refusal
  | _ => refusal

/-- Differences of the expected value to each of several received ones. -/
def differences (expected : Value) (received : List Value) : String :=
  "\n\n".intercalate (received.map (diffValues expected))

/-- What the report of an expectation shows: its name, the expected input and what was received. -/
def shownValues (name : Value) (expected : Option Value) (received : List Value) : List Value :=
  name :: expected.toList ++ received

/-- The report of an expectation of `label` `name`, which happened `count` times. With an expected
input what was received is shown by its differences to it. -/
def unmetMessage (times : Option Nat) (label : String) (name : Value) (expected : Option Value)
    (received : List Value) (count : Nat) : Except Refusal String := do
  checkWritable (anyLong (shownValues name expected received))
  let withArgs := match expected with
    | some v => ", with args " ++ v.repr
    | none => ""
  let details := match received, expected with
    | [], _ => ""
    | _, some v => "\nReceived elements include:\n" ++ differences v received
    | _, none => "\nReceived elements include: " ++ (Value.list received).repr
  return "Expected to receive " ++ describeTimes times ++ " " ++ label ++ " " ++ name.plain ++
    withArgs ++ ". Received " ++ toString count ++ details

end Rehearsal
