import Rehearsal.Json.Basic
import Rehearsal.Decimal.Reader
import Rehearsal.Script.Syntax

/-!
# Reading scripts

Scripts are written in the interchange format. A scalar is a constant, an object with one key is a
tagged value, and an array is an operator or a statement. Objects with identity among the
constants are numbered as they are read.
-/
namespace Rehearsal.Script.Reader

/-- Readers count the constants with identity, and say what they cannot read. -/
abbrev Read := StateT Nat (Except String)

def bad {α : Type} (what : String) : Read α := throw ("cannot read " ++ what)

/-- The origin of the next constant with identity. -/
def newOrigin : Read Origin := modifyGet fun n => (.constant n, n + 1)

def text (what : String) : Json → Read String
  | .text s => pure s
  | _ => bad what

def optionalName : Json → Read (Option String)
  | .null => pure none
  | .text s => pure (some s)
  | _ => bad "a name"

def items (what : String) : Json → Read (List Json)
  | .array js => pure js
  | _ => bad what

/-- The items of an array, or none where there is no array. -/
def optionalItems (what : String) : Json → Read (List Json)
  | .null => pure []
  | j => items what j

/-- The kind of function that a declaration makes. -/
def declaredKind : List Json → Option FunctionKind
  | .text "gen" :: _ => some .generator
  | .text "fn" :: _ => some .plain
  | .text "mock" :: _ => some .standIn
  | _ => none

/-- The function of a declaration. -/
def declaredFunction (j : Json) : Read Function :=
  match j with
  | .array [.text name, .text "mock_selector"] => pure ⟨name, .selector name⟩
  | .array [.text name, .text "mock_selector", .text id] => pure ⟨name, .selector id⟩
  | .array (.text name :: rest) => match declaredKind rest with
    | some kind => pure ⟨name, kind⟩
    | none => bad "a declaration"
  | _ => bad "a declaration"

/-- The function of a name, the last declaration of several counting. -/
def functionNamed (fs : List Function) (name : String) : Read Function :=
  match fs.reverse.find? fun f => f.name == name with
  | some f => pure f
  | none => bad ("the unknown function " ++ name)

def typeNamed (j : Json) : Read TypeName := do
  match TypeName.ofName? (← text "a type" j) with
  | some t => pure t
  | none => bad "an unknown type"

def errorNamed (j : Json) : Read ErrorClass := do
  match ErrorClass.ofName? (← text "an exception class" j) with
  | some c => pure c
  | none => bad "an unknown exception class"

/-- What an exception made of constants keeps of its arguments. -/
def constantArguments (kind : ErrorClass) (args : List Value) : List Value :=
  match kind, args with
  | .configuration, [v] => [.text ("Error in the configuration of SagaTester: " ++ v.plain)]
  | .unmatched, [v] => [.text v.plain]
  | _, args => args

/-- The value of a float; an undefined one is an object of its own. -/
def float (x : Float) : Read Value :=
  if x.isNaN then do return .nan (← newOrigin) else pure (.float x)

/-- A value, nested at most `depth` deep. -/
def value (fs : List Function) : Nat → Json → Read Value
  | 0, _ => bad "a value nested too deeply"
  | depth + 1, j =>
    let go := value fs depth
    let pair := fun (j : Json) => do
      match j with
      | .array [k, v] => return (← go k, ← go v)
      | _ => bad "an entry"
    match j with
    | .null => pure .null
    | .bool b => pure (.bool b)
    | .int n => pure (.int n)
    | .float x => float x
    | .text s => pure (.text s)
    | .array js => do return .list (← js.mapM go)
    | .object [("$dict", .array es)] => do return .dict (Mapping.ofList false (← es.mapM pair))
    | .object [("$frozendict", .array es)] => do return .dict (Mapping.ofList true (← es.mapM pair))
    | .object [("$tuple", .array js)] => do return .tuple (← js.mapM go)
    | .object [("$float", .text s)] => match Decimal.readFloat? s with
      | some x => float x
      | none => bad "a float"
    | .object [("$marker", .array [.int id, .text name])] => pure (.marker ⟨id.toNat, name, false⟩)
    | .object [("$tier", .text s)] => match WaitTier.ofText? s with
      | some t => pure (.tier t)
      | none => bad "a tier"
    | .object [("$type", t)] => do return .typeRef (← typeNamed t)
    | .object [("$fn", .text name)] => do return .function (← functionNamed fs name)
    | .object [("$pred", .text name)] => do
      return .predicate (← functionNamed fs name) (← newOrigin)
    | .object [("$exc", .array (kind :: args))] => do
      let kind ← errorNamed kind
      let args ← args.mapM go
      return .error ⟨kind, constantArguments kind args, ← newOrigin⟩
    | .object [("$any", _)] => pure (.placeholder .anything)
    | .object [("$task", _)] => pure (.placeholder .anyTask)
    | .object [("$of_type", .array ts)] => do
      return .placeholder (.instanceOfAny (← ts.mapM typeNamed))
    | .object [("$of_type", t)] => do return .placeholder (.instanceOf (← typeNamed t))
    | .object [("$matching", .text name)] => do
      return .placeholder (.satisfying (.predicate (← functionNamed fs name) (← newOrigin)))
    | _ => bad "a tagged value"

/-- A constant of a script. It is made anew at each evaluation if it holds objects with identity or
anything that can change. -/
def constant (fs : List Function) (depth : Nat) (j : Json) : Read Expr := do
  let before ← get
  let v ← value fs depth j
  return if (← get) == before && v.unhashable?.isNone then .const v else .literal v

def unaryOp? : String → Option UnaryOp
  | "not" => some .not
  | "is_none" => some .isNull
  | "len" => some .length
  | "str" => some .plain
  | "repr" => some .literal
  | "type" => some .typeName
  | _ => none

def binaryOp? : String → Option BinaryOp
  | "get" => some .get
  | "add" => some .add
  | "sub" => some .sub
  | "mul" => some .mul
  | "mod" => some .mod
  | "eq" => some .eq
  | "ne" => some .ne
  | "lt" => some .lt
  | "le" => some .le
  | "in" => some .contains
  | _ => none

/-- An expression, nested at most `depth` deep. -/
def expr (fs : List Function) : Nat → Json → Read Expr
  | 0, _ => bad "an expression nested too deeply"
  | depth + 1, j =>
    let go := expr fs depth
    let pair := fun (j : Json) => do
      match j with
      | .array [k, v] => return (← go k, ← go v)
      | _ => bad "an entry"
    let named := fun (j : Json) => do
      match j with
      | .array [.text k, v] => return (k, ← go v)
      | _ => bad "an argument given by name"
    let arguments := fun (rest : List Json) => do
      match rest with
      | [] => return ([], [])
      | [args] => return (← (← items "arguments" args).mapM go, [])
      | [args, kwargs] =>
        return (← (← items "arguments" args).mapM go, ← (← items "arguments" kwargs).mapM named)
      | _ => bad "arguments"
    let called := fun (c : List String → Constructor) (fn : Json) (rest : List Json) => do
      let f ← go fn
      let (args, kwargs) ← arguments rest
      return Expr.effect (c (kwargs.map (·.1))) (f :: args ++ kwargs.map (·.2))
    let watched := fun (h : Helper) (given : List Json) (rest : List Json) => do
      let xs ← given.mapM go
      let (args, _) ← arguments rest
      return Expr.effect (.watcher h) (xs ++ args)
    match j with
    | .array (.text op :: rest) =>
      match op, rest with
      | "lit", [v] => constant fs depth v
      | "v", [.text name] => pure (.var name)
      | "shared", [.text key] => pure (.shared key)
      | "list", es => do return .list (← es.mapM go)
      | "tuple", es => do return .tuple (← es.mapM go)
      | "dict", [es] => do return .dict (← (← items "entries" es).mapM pair)
      | "and", [a, b] => do return .both (← go a) (← go b)
      | "or", [a, b] => do return .either (← go a) (← go b)
      | "attr", [e, .text name] => do return .attr (← go e) name
      | "steps", [] => pure .steps
      | "fn", [.text name] => do return .const (.function (← functionNamed fs name))
      | "exc", t :: args => do
        match ← typeNamed t with
        | .error kind => return .exception kind (← args.mapM go)
        | t => return .invoke (.const (.typeRef t)) (← args.mapM go) []
      | "new", fn :: rest => do
        let f ← go fn
        let (args, kwargs) ← arguments rest
        return .invoke f args kwargs
      | "call", fn :: rest => called .call fn rest
      | "fork", fn :: rest => called (.fork · false) fn rest
      | "spawn", fn :: rest => called (.fork · true) fn rest
      | "select", fn :: rest => do
        let f ← go fn
        let (args, _) ← arguments rest
        return .effect .select (f :: args)
      | "join", es => do return .effect (.fields .join) (← es.mapM go)
      | "cancel", es => do return .effect (.fields .cancel) (← es.mapM go)
      | "cancelled", [] => pure (.effect .cancelled [])
      | "delay", es => do return .effect (.fields .delay) (← es.mapM go)
      | "put", es => do return .effect (.fields .put) (← es.mapM go)
      | "take", es => do return .effect (.fields .take) (← es.mapM go)
      | "race", es => do return .effect .race (← es.mapM go)
      | "gather", es => do return .effect .gather (← es.mapM go)
      | "debounce", ticks :: pattern :: worker :: rest =>
        watched .debounce [ticks, pattern, worker] rest
      | "throttle", ticks :: pattern :: worker :: rest =>
        watched .throttle [ticks, pattern, worker] rest
      | "watch", es => do return .effect (.fields .watch) (← es.mapM go)
      | "raw", .text c :: es => do
        match EffectClass.ofName? c with
        | some c => return .effect (.fields c) (← es.mapM go)
        | none => bad "an effect class"
      | "ask", [.text q, key] => do
        match Question.ofName? q with
        | some q => return .effect (.question q) [← go key]
        | none => bad "an effect class"
      | op, rest => do
        match unaryOp? op, binaryOp? op, Helper.ofName? op, rest with
        | some u, _, _, [a] => return .unary u (← go a)
        | _, some b, _, [x, y] => return .binary b (← go x) (← go y)
        | _, _, some h, pattern :: worker :: rest => watched h [pattern, worker] rest
        | _, _, _, _ => bad ("the operator " ++ op)
    | .array _ => bad "an operator"
    | j => constant fs depth j

/-- A statement, nested at most `depth` deep. -/
def stmt (fs : List Function) : Nat → Json → Read Stmt
  | 0, _ => bad "a statement nested too deeply"
  | depth + 1, j =>
    let e := expr fs depth
    let block := fun (j : Json) => do (← items "a block" j).mapM (stmt fs depth)
    let final := fun (rest : List Json) => match rest with
      | [] | [.null] => pure none
      | f :: _ => do return some (← block f)
    let handler := fun (j : Json) => do
      match j with
      | .array [.array classes, name, body] =>
        return Handler.mk (← classes.mapM typeNamed) (← optionalName name) (← block body)
      | _ => bad "a handler"
    match j with
    | .array (.text op :: rest) =>
      match op, rest with
      | "let", [.text name, x] => do return .assign name (← e x)
      | "yield", [name, x] => do return .yield (← optionalName name) (← e x)
      | "from", [name, x] => do return .delegate (← optionalName name) (← e x)
      | "log", [x] => do return .log (← e x)
      | "share", [.text key, x] => do return .share key (← e x)
      | "setitem", [x, k, v] => do return .assignItem (← e x) (← e k) (← e v)
      | "do", [x] => do return .eval (← e x)
      | "return", [] => pure (.ret (.const .null))
      | "return", [x] => do return .ret (← e x)
      | "raise", [x] => do return .raise (← e x)
      | "reraise", [] => pure .reraise
      | "break", [] => pure .stop
      | "continue", [] => pure .next
      | "if", [c, yes] => do return .cond (← e c) (← block yes) []
      | "if", [c, yes, .null] => do return .cond (← e c) (← block yes) []
      | "if", [c, yes, no] => do return .cond (← e c) (← block yes) (← block no)
      | "while", [c, body] => do return .loop (← e c) (← block body)
      | "for", [.text name, x, body] => do return .each name (← e x) (← block body)
      | "try", [body] => do return .guarded (← block body) [] none
      | "try", body :: handlers :: rest => do
        let body ← block body
        let handlers ← (← optionalItems "handlers" handlers).mapM handler
        return .guarded body handlers (← final rest)
      | op, _ => bad ("the statement " ++ op)
    | _ => bad "a statement"

/-- How deep scripts may nest. -/
def depthLimit : Nat := 100000

def declaration (fs : List Function) (j : Json) : Read Declaration := do
  let function ← declaredFunction j
  match j with
  | .array [_, _, .array params, .array body] =>
    return ⟨function, ← params.mapM (text "a parameter"), ← body.mapM (stmt fs depthLimit)⟩
  | _ => return ⟨function, [], []⟩

/-- A script's declarations; every function may use all of them. -/
def program (funcs : List Json) : Read Program := do
  let fs ← funcs.mapM declaredFunction
  return ⟨← funcs.mapM (declaration fs)⟩

/-- The functions a program declares. -/
def functions (p : Program) : List Function := p.declarations.map (·.function)

def readValue (p : Program) (j : Json) : Read Value := value (functions p) depthLimit j

def readExpr (p : Program) (j : Json) : Read Expr := expr (functions p) depthLimit j

end Rehearsal.Script.Reader
