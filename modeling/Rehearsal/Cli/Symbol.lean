import Rehearsal.Failure
import Rehearsal.Script.Syntax

/-!
# Finding a saga

A saga is named by a module and a path of attributes in it. Modules are scripts; none of them has
modules below it.
-/
namespace Rehearsal.Cli

open Text

/-- A script by the name it is imported under. -/
structure Module where
  name : String
  program : Script.Program

/-- What a path of attributes leads to. -/
inductive Symbol where
  | script (m : Module)
  /-- All functions of a module once more. -/
  | bundle (m : Module)
  | function (f : Function)
  | text (s : String)
  | nothing

namespace Symbol

/-- A symbol as a value that could be a saga. -/
def toValue : Symbol → Value
  | function f => .function f
  | text s => .text s
  | _ => .null

def missingAttribute (owner name : String) : Refusal :=
  .ofText .missingAttribute (owner ++ " has no attribute " ++ "'" ++ name ++ "'")

/-- How messages speak of the owner of an attribute. -/
def owner : Symbol → String
  | script m => "module " ++ quoted m.name
  | bundle _ => "'types.SimpleNamespace' object"
  | function _ => "'function' object"
  | text _ => "'str' object"
  | nothing => "'NoneType' object"

/-- An attribute of a symbol. -/
def attr (s : Symbol) (name : String) : Except Refusal Symbol :=
  let refusal := Except.error (missingAttribute s.owner name)
  match s with
  | script m =>
    match m.program.function? name with
    | some f => .ok (function f)
    | none =>
      if name == "ns" then .ok (bundle m)
      else if name == "__name__" then .ok (text m.name)
      else if ["__doc__", "__package__", "__loader__", "__spec__", "__dict__", "__class__"].contains
          name then .ok nothing
      else refusal
  | bundle m => match m.program.function? name with
    | some f => .ok (function f)
    | none => refusal
  | function f =>
    if name == "__name__" || name == "__qualname__" then .ok (text f.label)
    else if name == "__doc__" then .ok nothing
    else refusal
  | _ => refusal

end Symbol

/-- The pieces of a text between the separators. -/
def splitAt (separator : Char) : List Char → List (List Char)
  | [] => [[]]
  | c :: cs =>
    if c == separator then [] :: splitAt separator cs
    else match splitAt separator cs with
      | piece :: pieces => (c :: piece) :: pieces
      | [] => [[c]]

/-- The names between the dots of a path. -/
def pathNames (s : String) : List String := (splitAt '.' s.toList).map String.ofList

/-- The refusal of a module that is none of `modules`: the first package on the way to it that is
missing counts. -/
def missingModule (modules : List Module) (name : String) : Refusal :=
  match pathNames name with
  | top :: next :: _ =>
    if modules.any fun m => m.name == top then
      .ofText .moduleNotFound ("No module named " ++ quoted (top ++ "." ++ next) ++ "; " ++
        quoted top ++ " is not a package")
    else .ofText .moduleNotFound ("No module named " ++ quoted top)
  | _ => .ofText .moduleNotFound ("No module named " ++ quoted name)

/-- The module of a name. -/
def importModule (modules : List Module) (name : String) : Except Refusal Module :=
  match name.toList with
  | [] => .error (.value "Empty module name")
  | '.' :: _ => .error (.typed
      ("the 'package' argument is required to perform a relative import for " ++ quoted name))
  | _ => match modules.find? fun m => m.name == name with
    | some m => .ok m
    | none => .error (missingModule modules name)

/-- Where a saga is found: its module, and the path of attributes within. -/
structure Place where
  home : String
  attrs : List String

/-- The place that a text names: module and path are parted by the first colon, or else by the last
dot. -/
def Place.ofText? (s : String) : Option Place :=
  let cs := s.toList
  if cs.contains ':' then
    some ⟨String.ofList (cs.takeWhile (· != ':')),
      pathNames (String.ofList ((cs.dropWhile (· != ':')).drop 1))⟩
  else
    let names := pathNames s
    if names.length < 2 then none
    else some ⟨".".intercalate names.dropLast, names.getLast?.toList⟩

/-- The symbol at a place. -/
def Place.find (modules : List Module) (p : Place) : Except Refusal (Module × Symbol) := do
  let m ← importModule modules p.home
  return (m, ← p.attrs.foldlM Symbol.attr (.script m))

end Rehearsal.Cli
