import Rehearsal.Text.Quoted
import Rehearsal.Decimal.Spelling
import Rehearsal.Value.Order
import Rehearsal.Value.Sorting

/-!
# Literals of values

`Value.literal` writes a value the way diagnostics show it, `Value.plain` the way it reads inside
a sentence: texts and exceptions then appear without their quotes and class. With `sorted` the
plain mappings reachable through lists, tuples and mappings list their items by key.
-/
namespace Rehearsal

open Text

/-- A type's name, with the place it is defined at where it belongs to the bench itself. -/
def TypeName.qualified (t : TypeName) : String :=
  let home := match t with
    | .marker => "sagasim.scheduler.task."
    | .frozenDict => "frozendict."
    | .error .harness | .error .configuration | .error .unmatched => "sagasim.errors."
    | _ => ""
  home ++ t.name

def TypeName.literal (t : TypeName) : String := "<class '" ++ t.qualified ++ "'>"

/-- The name of a value's type, with the place the type is defined at. -/
def Value.qualifiedType : Value → String
  | .marker _ => TypeName.marker.qualified
  | .tier t => "sagasim.scheduler.types." ++ (Value.tier t).typeName
  | .dict ⟨true, _⟩ => TypeName.frozenDict.qualified
  | .error e => (TypeName.error e.kind).qualified
  | v => v.typeName

def WaitTier.literal (t : WaitTier) : String :=
  "<WaitTier." ++ t.label ++ ": " ++ quoted t.text ++ ">"

/-- A tuple's literal from those of its items. -/
def tupleLiteral : List String → String
  | [item] => "(" ++ item ++ ",)"
  | items => "(" ++ ", ".intercalate items ++ ")"

def listLiteral (items : List String) : String := "[" ++ ", ".intercalate items ++ "]"

def dictLiteral (frozen : Bool) (items : List (String × String)) : String :=
  let body := "\x7b" ++ ", ".intercalate (items.map fun e => e.1 ++ ": " ++ e.2) ++ "\x7d"
  if frozen then "frozendict.frozendict(" ++ body ++ ")" else body

def Marker.literal (m : Marker) : String :=
  "TaskMarker(id=" ++ toString m.id ++ ", name=" ++ quoted m.name ++ ")"

/-- Whether a key comes before another in a sorted mapping: by value where the two have an order,
by the names of their types otherwise. -/
def Value.keyBefore (a b : Value) : Bool :=
  match a.lt b with
  | .ok r => r
  | .error _ => a.qualifiedType < b.qualifiedType

/-- Items with their keys, by key. -/
def sortByKey {α : Type} (es : List (Value × α)) : List (Value × α) :=
  sortWith (fun a b => a.1.keyBefore b.1) es

mutual

def Value.literal (sorted : Bool) : Value → String
  | .null => "None"
  | .bool true => "True"
  | .bool false => "False"
  | .int n => toString n
  | .float x => Decimal.Spelling.float.text x
  | .nan _ => Decimal.Spelling.float.undefined
  | .text s => quoted s
  | .list xs => listLiteral (literals sorted xs)
  | .tuple xs => tupleLiteral (literals sorted xs)
  | .dict m => m.literal sorted
  | .marker m => m.literal
  | .tier t => t.literal
  | .typeRef t => t.literal
  | .function f => "<function " ++ f.label ++ ">"
  | .predicate f _ => "<pred " ++ f.label ++ ">"
  | .watcher w => w.literal
  | .generator _ => "<generator>"
  | .error e => e.literal
  | .effect e => e.literal
  | .placeholder p => p.literal
  | .selection name => "MockedSelection(name=" ++ quoted name ++ ")"
  | .object _ v => v.literal sorted

def literals (sorted : Bool) : List Value → List String
  | [] => []
  | v :: vs => v.literal sorted :: literals sorted vs

/-- Keys, their literals and those of their values. -/
def entryLiterals (sorted : Bool) : List (Value × Value) → List (Value × String × String)
  | [] => []
  | (k, v) :: es => (k, k.literal sorted, v.literal sorted) :: entryLiterals sorted es

def Mapping.literal (sorted : Bool) : Mapping → String
  | ⟨true, es⟩ => dictLiteral true ((entryLiterals false es).map (·.2))
  | ⟨false, es⟩ =>
    let items := entryLiterals sorted es
    dictLiteral false ((if sorted then sortByKey items else items).map (·.2))

def Exn.literal : Exn → String
  | ⟨kind, args, _⟩ => kind.name ++ "(" ++ ", ".intercalate (literals false args) ++ ")"

def Placeholder.literal : Placeholder → String
  | .anything => "ANY"
  | .anyTask => "TASK"
  | .instanceOf t => "OfType(type=" ++ t.literal ++ ")"
  | .instanceOfAny ts => "OfType(type=" ++ tupleLiteral (ts.map (·.literal)) ++ ")"
  | .satisfying f => "Matching(predicate=" ++ f.literal false ++ ")"

def Watcher.literal : Watcher → String
  | ⟨helper, pattern, _, _, _, _⟩ =>
    "Watcher(" ++ helper.name ++ ", pattern=" ++ pattern.literal false ++ ")"

def Members.literal : Members → String
  | .listed xs => tupleLiteral (literals false xs)
  | .keyed m => m.literal false

def namedLiterals : List (String × Value) → List (String × String)
  | [] => []
  | (k, v) :: es => (quoted k, v.literal false) :: namedLiterals es

def markerEntryLiterals : List (Value × Marker) → List (String × String)
  | [] => []
  | (k, m) :: es => (k.literal false, m.literal) :: markerEntryLiterals es

def Targets.literal : Targets → String
  | .single m => m.literal
  | .listed true ms => tupleLiteral (ms.map (·.literal))
  | .listed false ms => listLiteral (ms.map (·.literal))
  | .keyed frozen es => dictLiteral frozen (markerEntryLiterals es)

def Effect.literal : Effect → String
  | .call f args kwargs =>
    "CallEffect(fn=" ++ f.literal false ++ ", args=" ++ tupleLiteral (literals false args) ++
      ", kwargs=" ++ dictLiteral false (namedLiterals kwargs) ++ ")"
  | .fork f args kwargs detached =>
    "ForkEffect(fn=" ++ f.literal false ++ ", args=" ++ tupleLiteral (literals false args) ++
      ", kwargs=" ++ dictLiteral false (namedLiterals kwargs) ++ ", detached=" ++
      (if detached then "True" else "False") ++ ")"
  | .select f args =>
    "SelectEffect(selector=" ++ f.literal false ++ ", args=" ++
      tupleLiteral (literals false args) ++ ")"
  | .race m => "RaceEffect(members=" ++ m.literal ++ ")"
  | .gather m => "AllEffect(members=" ++ m.literal ++ ")"
  | .join t => "JoinEffect(targets=" ++ t.literal ++ ")"
  | .cancel t => "CancelEffect(targets=" ++ t.literal ++ ")"
  | .cancelSelf => "CancelEffect(targets=None)"
  | .cancelled => "CancelledEffect()"
  | .delay ticks => "DelayEffect(ticks=" ++ toString ticks ++ ")"
  | .watch h p => "WatchEffect(helper=" ++ quoted h.name ++ ", pattern=" ++ p.literal false ++ ")"
  | .put m _ => "PutEffect(action=" ++ m.literal false ++ ")"
  | .take p => "TakeEffect(pattern=" ++ p.literal false ++ ")"
  | .question q k => q.name ++ "(key=" ++ k.literal false ++ ")"

end

/-- The literal of a value, mappings in their own order. -/
def Value.repr (v : Value) : String := v.literal false

mutual

/-- The text of a value inside a sentence. -/
def Value.plain : Value → String
  | .text s => s
  | .tier t => t.text
  | .error e => e.message
  | v => v.literal false

/-- What an exception says: nothing, its one argument, or all of them as a tuple. A missing key
is shown as a literal. -/
def Exn.message : Exn → String
  | ⟨.key, [v], _⟩ => v.literal false
  | ⟨_, args, _⟩ => argsText args

def argsText : List Value → String
  | [] => ""
  | [v] => v.plain
  | args => tupleLiteral (literals false args)

end

/-- The class and the message of an exception, as reports of it show them. -/
def Exn.summary (e : Exn) : String := e.kind.name ++ ": " ++ e.message

end Rehearsal
