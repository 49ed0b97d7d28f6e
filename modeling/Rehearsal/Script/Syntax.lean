import Rehearsal.Effect.Build

/-!
# Scripts

The small language that tested code is written in: expressions that compute values and build
effects, statements with loops and exceptions, and generator functions that yield.
-/
namespace Rehearsal.Script

inductive UnaryOp where
  | not | isNull | length | plain | literal | typeName
  deriving DecidableEq

inductive BinaryOp where
  | get | add | sub | mul | mod | eq | ne | lt | le | contains
  deriving DecidableEq

inductive Expr where
  | const (v : Value)
  /-- A constant that holds objects with identity: each evaluation makes them anew. -/
  | literal (v : Value)
  | var (name : String)
  /-- An entry of the store that all tasks of a run share. -/
  | shared (key : String)
  | list (es : List Expr)
  | tuple (es : List Expr)
  | dict (es : List (Expr × Expr))
  | unary (op : UnaryOp) (e : Expr)
  | binary (op : BinaryOp) (a b : Expr)
  /-- The first operand if it is false, the second otherwise. -/
  | both (a b : Expr)
  /-- The first operand if it is true, the second otherwise. -/
  | either (a b : Expr)
  /-- An attribute of a marker. -/
  | attr (e : Expr) (name : String)
  /-- The step counter. -/
  | steps
  /-- A new exception. -/
  | exception (kind : ErrorClass) (args : List Expr)
  /-- A call made at once. -/
  | invoke (fn : Expr) (args : List Expr) (kwargs : List (String × Expr))
  | effect (c : Constructor) (args : List Expr)

mutual

inductive Stmt where
  | assign (name : String) (e : Expr)
  /-- Yields a value, and keeps what is sent back under a name. -/
  | yield (name : Option String) (e : Expr)
  /-- Yields whatever a generator yields, and keeps what it returns under a name. -/
  | delegate (name : Option String) (e : Expr)
  | log (e : Expr)
  | share (key : String) (e : Expr)
  | assignItem (e k v : Expr)
  | eval (e : Expr)
  | ret (e : Expr)
  | raise (e : Expr)
  /-- Raises the exception being handled once more. -/
  | reraise
  | stop
  | next
  | cond (c : Expr) (yes no : List Stmt)
  | loop (c : Expr) (body : List Stmt)
  | each (name : String) (e : Expr) (body : List Stmt)
  | guarded (body : List Stmt) (handlers : List Handler) (final : Option (List Stmt))

/-- Handles exceptions of any of the classes, and keeps the exception under a name. -/
structure Handler where
  classes : List TypeName
  name : Option String
  body : List Stmt

end

/-- A function declared by a script. -/
structure Declaration where
  function : Function
  params : List String
  body : List Stmt

/-- All functions of a script, in the order of their declarations. -/
structure Program where
  declarations : List Declaration

namespace Program

/-- The declaration of a function; the last of one name counts. -/
def find? (p : Program) (name : String) : Option Declaration :=
  p.declarations.reverse.find? fun d => d.function.name == name

/-- The function of a name. -/
def function? (p : Program) (name : String) : Option Function := (p.find? name).map (·.function)

end Program

/-- Reports the first effective action matching its pattern, waits for its ticks, and forks its
worker for it; without such an action it ends at once. -/
def watcherBody (w : Watcher) : List Stmt :=
  let pause := if w.ticks == 0 then [] else [Stmt.yield none (.const (.effect (.delay w.ticks)))]
  [ .yield (some "action") (.const (.effect (.watch w.helper w.pattern))),
    .cond (.unary .isNull (.var "action")) [.ret (.const .null)] [] ] ++ pause ++
  [ .yield (some "forked") (.effect (.fork [] false)
      (.const w.worker :: w.args.map Expr.const ++ [.var "action"])),
    .ret (.var "forked") ]

end Rehearsal.Script
