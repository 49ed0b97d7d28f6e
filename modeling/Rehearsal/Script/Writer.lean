import Rehearsal.Engine.Interpret
import Rehearsal.Json.Basic

/-!
# Writing values

The interchange form of values, as scripts write their constants: scalars and lists are themselves,
everything else is an object with one tag.
-/
namespace Rehearsal

namespace Json

def tagged (tag : String) (j : Json) : Json := object [(tag, j)]

def ofNat (n : Nat) : Json := int (Int.ofNat n)

/-- Entries with keys of any kind. -/
def pairs (frozen : Bool) (es : List (Json × Json)) : Json :=
  tagged (if frozen then "$frozendict" else "$dict") (array (es.map fun e => array [e.1, e.2]))

end Json

open Json (tagged pairs)

def Marker.toJson (m : Marker) : Json := tagged "$marker" (.array [.ofNat m.id, .text m.name])

def Exn.toJson (e : Exn) : Json :=
  tagged "$error" (.array [.text e.kind.name, .text e.message])

mutual

/-- The interchange form of a value. -/
def Value.toJson : Value → Json
  | .null => .null
  | .bool b => .bool b
  | .int n => .int n
  | .float x => tagged "$float" (.text (Decimal.Spelling.float.text x))
  | .nan _ => tagged "$float" (.text Decimal.Spelling.float.undefined)
  | .text s => .text s
  | .list xs => .array (itemsToJson xs)
  | .tuple xs => tagged "$tuple" (.array (itemsToJson xs))
  | .dict m => m.toJson
  | .marker m => m.toJson
  | .tier t => tagged "$tier" (.text t.text)
  | .typeRef t => tagged "$type" (.text t.name)
  | .function f => tagged "$fn" (.text f.label)
  | .predicate f _ => tagged "$pred" (.text f.label)
  | .watcher w => w.toJson
  | .generator _ => tagged "$gen" (.bool true)
  | .error e => e.toJson
  | .effect e => tagged "$effect" (.object
      (("type", .text e.className) :: ("kind", .text e.kind.name) :: e.fieldsToJson))
  | .placeholder p => tagged "$placeholder" (.text p.literal)
  | .selection name => tagged "$mocked" (.text name)
  | .object _ v => v.toJson

def itemsToJson : List Value → List Json
  | [] => []
  | v :: vs => v.toJson :: itemsToJson vs

def entriesToJson : List (Value × Value) → List (Json × Json)
  | [] => []
  | (k, v) :: es => (k.toJson, v.toJson) :: entriesToJson es

def Mapping.toJson : Mapping → Json
  | ⟨frozen, es⟩ => pairs frozen (entriesToJson es)

def Watcher.toJson : Watcher → Json
  | ⟨helper, pattern, worker, args, ticks, origin⟩ => tagged "$watcher" (.array
      [.text helper.name, pattern.toJson, .ofNat ticks,
        tagged "$tuple" (.array (itemsToJson args)), worker.toJson,
        .text (Watcher.literal ⟨helper, pattern, worker, args, ticks, origin⟩)])

/-- Arguments given by name. -/
def namedToJson : List (String × Value) → List (Json × Json)
  | [] => []
  | (k, v) :: es => (.text k, v.toJson) :: namedToJson es

/-- Members given in order, each with its number. -/
def numberedToJson (n : Nat) : List Value → List Json
  | [] => []
  | v :: vs => tagged "$tuple" (.array [.ofNat n, v.toJson]) :: numberedToJson (n + 1) vs

/-- Members given by key. -/
def keyedToJson : List (Value × Value) → List Json
  | [] => []
  | (k, v) :: es => tagged "$tuple" (.array [k.toJson, v.toJson]) :: keyedToJson es

def Members.toJson : Members → List (String × Json)
  | .listed xs =>
    [("members", tagged "$tuple" (.array (itemsToJson xs))), ("is_keyed", .bool false),
      ("items", .array (numberedToJson 0 xs))]
  | .keyed ⟨frozen, es⟩ =>
    [("members", pairs frozen (entriesToJson es)), ("is_keyed", .bool true),
      ("items", .array (keyedToJson es))]

/-- Tasks given by key. -/
def markersToJson : List (Value × Marker) → List (Json × Json)
  | [] => []
  | (k, m) :: es => (k.toJson, m.toJson) :: markersToJson es

def Targets.toJson : Targets → Json
  | .single m => m.toJson
  | .listed true ms => tagged "$tuple" (.array (ms.map (·.toJson)))
  | .listed false ms => .array (ms.map (·.toJson))
  | .keyed frozen es => pairs frozen (markersToJson es)

/-- The fields of an effect besides its class and kind. -/
def Effect.fieldsToJson : Effect → List (String × Json)
  | .call fn args kwargs =>
    [("name", .text fn.callName), ("fn", fn.toJson),
      ("args", tagged "$tuple" (.array (itemsToJson args))),
      ("kwargs", pairs false (namedToJson kwargs))]
  | .fork fn args kwargs detached =>
    [("name", .text fn.callName), ("fn", fn.toJson),
      ("args", tagged "$tuple" (.array (itemsToJson args))),
      ("kwargs", pairs false (namedToJson kwargs)), ("detached", .bool detached)]
  | .select fn args =>
    [("selector", fn.toJson), ("args", tagged "$tuple" (.array (itemsToJson args)))]
  | .race m | .gather m => m.toJson
  | .join t | .cancel t => [("targets", t.toJson)]
  | .cancelSelf => [("targets", .null)]
  | .cancelled => []
  | .delay ticks => [("ticks", .ofNat ticks)]
  | .watch h p => [("helper", .text h.name), ("pattern", p.toJson)]
  | .put ⟨frozen, es⟩ _ => [("action", pairs frozen (entriesToJson es))]
  | .take p => [("pattern", p.toJson)]
  | .question _ key => [("key", key.toJson)]

end

mutual

/-- The interchange form of a pending structure. -/
def Pending.toJson : Pending → Json
  | .task id => tagged "$ref" (.ofNat id)
  | .completed v => tagged "$completed" v.toJson
  | .returned v => tagged "$done" v.toJson
  | .failed e => tagged "$failed" e.toJson
  | .value v => v.toJson
  | .list ps => .array (slotsToJson ps)
  | .tuple ps => tagged "$tuple" (.array (slotsToJson ps))
  | .keyed frozen es => pairs frozen (slotEntriesToJson es)

def slotsToJson : List Pending → List Json
  | [] => []
  | p :: ps => p.toJson :: slotsToJson ps

def slotEntriesToJson : List (Value × Pending) → List (Json × Json)
  | [] => []
  | (k, p) :: es => (k.toJson, p.toJson) :: slotEntriesToJson es

end

end Rehearsal
