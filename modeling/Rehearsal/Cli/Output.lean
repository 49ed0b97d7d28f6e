import Rehearsal.Json.Basic
import Rehearsal.Value.Render

/-!
# Values in reports

A value is reported in the interchange format where it has a form there, and by its literal
otherwise.
-/
namespace Rehearsal

/-- The text of a key in the interchange format. -/
def Value.keyText? : Value → Option String
  | .text s => some s
  | .int n => some (toString n)
  | .float x => some (Decimal.Spelling.interchange.text x)
  | .nan _ => some Decimal.Spelling.interchange.undefined
  | .bool true => some "true"
  | .bool false => some "false"
  | .null => some "null"
  | _ => none

mutual

/-- The form of a value in the interchange format, if it has one. -/
def Value.toJson? : Value → Option Json
  | .null => some .null
  | .bool b => some (.bool b)
  | .int n => some (.int n)
  | .float x => some (.float x)
  | .nan _ => some (.float Number.undefined)
  | .text s => some (.text s)
  | .list xs | .tuple xs => (itemsToJson? xs).map .array
  | .dict ⟨_, es⟩ => (entriesToJson? es).map .object
  | _ => none

def itemsToJson? : List Value → Option (List Json)
  | [] => some []
  | v :: vs => match v.toJson?, itemsToJson? vs with
    | some j, some js => some (j :: js)
    | _, _ => none

def entriesToJson? : List (Value × Value) → Option (List (String × Json))
  | [] => some []
  | (k, v) :: es => match k.keyText?, v.toJson?, entriesToJson? es with
    | some s, some j, some js => some ((s, j) :: js)
    | _, _, _ => none

end

/-- A value in a report. -/
def Value.report (v : Value) : Json := v.toJson?.getD (.text v.repr)

end Rehearsal
