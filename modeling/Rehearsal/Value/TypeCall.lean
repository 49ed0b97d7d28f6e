import Rehearsal.Value.Conversion

/-!
# Calling the plain types

Each plain type says which arguments it takes before it converts any. Arguments given by name are
merged with those given by position, in the order of the parameters.
-/
namespace Rehearsal.Value

def plural (n : Nat) : String := if n == 1 then "" else "s"

/-- Refuses arguments given by name. -/
def withoutNamed (type : String) (named : List (String × Value)) : Except Refusal Unit :=
  if named.isEmpty then .ok () else .error (.typed (type ++ "() takes no keyword arguments"))

/-- Refuses more than one argument. -/
def atMostOne (type : String) (args : List Value) : Except Refusal Unit :=
  if args.length ≤ 1 then .ok ()
  else .error (.typed (type ++ " expected at most 1 argument, got " ++ toString args.length))

/-- The value of each of the parameters of a type, if it has one. The first `anonymous` of them have
no name that arguments could go by. -/
def parameters (type : String) (names : List String) (anonymous : Nat) (args : List Value)
    (named : List (String × Value)) : Except Refusal (List (Option Value)) := do
  let given := args.length + named.length
  let kind := if args.isEmpty then "keyword " else ""
  if given > names.length then
    .error (.typed (type ++ "() takes at most " ++ toString names.length ++ " " ++ kind ++
      "argument" ++ plural names.length ++ " (" ++ toString given ++ " given)"))
  let known := names.drop anonymous
  if let some (name, _) := named.find? fun e => !known.contains e.1 then
    .error (.typed ("'" ++ name ++ "' is an invalid keyword argument for " ++ type ++ "()"))
  names.zipIdx.mapM fun (name, i) =>
    match args[i]?, named.lookup name with
    | some _, some _ => .error (.typed ("argument for " ++ type ++ "() given by name ('" ++ name ++
        "') and position (" ++ toString (i + 1) ++ ")"))
    | some v, none => .ok (some v)
    | none, v => .ok v

/-- A whole number from a value, or from a text and its base. -/
def makeInt (args : List Value) (named : List (String × Value)) : Except Refusal Value := do
  if named.isEmpty && args.length > 2 then
    .error (.typed ("int expected at most 2 arguments, got " ++ toString args.length))
  match ← parameters "int" ["", "base"] 1 args named with
  | [some v, none] => v.toInt
  | [some v, some base] => toIntIn v base
  | [none, some _] => .error (.typed "int() missing string argument")
  | _ => .ok (int 0)

/-- Refuses what is given for a parameter that takes a text. -/
def checkText (parameter : String) : Option Value → Except Refusal Unit
  | none | some (text _) => .ok ()
  | some v => .error (.typed ("str() argument '" ++ parameter ++ "' must be str, not " ++
      (if v.isNull then "None" else v.typeName)))

/-- A value as text. Nothing is decoded, because no value is made of bytes. -/
def makeText (args : List Value) (named : List (String × Value)) : Except Refusal Value := do
  match ← parameters "str" ["object", "encoding", "errors"] 0 args named with
  | [v, encoding, errors] =>
    checkText "encoding" encoding
    checkText "errors" errors
    match v with
    | none => return text ""
    | some v =>
      if encoding.isNone && errors.isNone then
        v.checkLong
        return text v.plain
      match v with
      | text _ => .error (.typed "decoding str is not supported")
      | v => .error (.typed ("decoding to str: need a bytes-like object, " ++ v.typeName ++
          " found"))
  | _ => .ok (text "")

/-- A mapping of the entries of the argument and those given by name. -/
def makeDict (frozen : Bool) (args : List Value) (named : List (String × Value)) :
    Except Refusal Value := do
  atMostOne "dict" args
  let entries ← match args with
    | [] => .ok []
    | v :: _ => v.toEntries
  return dict (Mapping.ofList frozen (entries ++ named.map fun e => (text e.1, e.2)))

/-- What a plain type makes of its arguments; `origin` identifies an undefined number made on the
way. -/
def convert (origin : Origin) (t : TypeName) (args : List Value) (named : List (String × Value)) :
    Except Refusal Value :=
  let single := fun (absent : Value) (f : Value → Except Refusal Value) => do
    withoutNamed t.name named
    atMostOne t.name args
    match args with
    | [] => .ok absent
    | v :: _ => f v
  match t with
  | .bool => single (bool false) fun v => .ok (bool v.truthy)
  | .int => makeInt args named
  | .float => single (float 0.0) (·.toFloat origin)
  | .text => makeText args named
  | .list => single (list []) fun v => v.elements.map list
  | .tuple => single (tuple []) fun v => v.elements.map tuple
  | .dict => makeDict false args named
  | .frozenDict => makeDict true args named
  | .null =>
    if args.isEmpty && named.isEmpty then .ok null
    else .error (.typed (t.name ++ " takes no arguments"))
  | t => .error (.typed (t.name ++ "() takes no arguments"))

end Rehearsal.Value
