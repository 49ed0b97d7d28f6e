import Rehearsal.Failure
import Rehearsal.Value.Renewal

/-!
# Selections

Selectors read from a frozen state. A stand-in selector has the value configured under its name,
and a selector that crashes or finds nothing is a failure of the bench, not of the tested code.
-/
namespace Rehearsal

/-- What selectors read from. -/
structure Selection where
  state : Value
  /-- The values of stand-in selectors by name. -/
  selectors : Mapping
  /-- Accept selectors that return nothing. -/
  passOnNone : Bool

namespace Selection

/-- A mapping, or the empty one in the place of something false. -/
def mappingOr (v : Value) : Mapping :=
  match v with
  | .dict m => m
  | _ => ⟨false, []⟩

def ofValues (state selectors : Value) (passOnNone : Bool) : Selection :=
  let state := if state.truthy then state else .dict ⟨false, []⟩
  ⟨state.freeze, mappingOr selectors, passOnNone⟩

/-- The failure of a selector that raised an exception. -/
def crashed (e : Exn) (step : Nat) : Failure :=
  (Value.error e).reportedIn (.harness (.unmatched
    ("A selector crashed while executing. Either provide the value in state, or mock it " ++
      "using mock_selector: " ++ e.summary) (some step)))

/-- The failure of a stand-in selector without a value. -/
def unknown (name : String) (step : Nat) : HarnessError :=
  .unmatched
    ("Received selector with id " ++ name ++ ", but the SagaTester was not configured to " ++
    "handle this selector") (some step)

/-- The failure of a selector that found nothing. -/
def nothing (step : Nat) : HarnessError :=
  .unmatched
    ("A selector returned None. If this is desirable, set pass_on_none. Otherwise, provide " ++
    "the value in state or mock the selector") (some step)

/-- The value of a selection whose selector returned `v`. -/
def settle (s : Selection) (step : Nat) (v : Value) : Except HarnessError Value :=
  match v with
  | .selection name => match s.selectors.getText? name with
    | some v => .ok v
    | none => .error (unknown name step)
  | .null => if s.passOnNone then .ok .null else .error (nothing step)
  | v => .ok v

end Selection

end Rehearsal
