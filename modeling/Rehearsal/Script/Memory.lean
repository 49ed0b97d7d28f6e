import Rehearsal.Script.Syntax
import Rehearsal.Engine.World
import Rehearsal.Value.Object

/-!
# The memory of a running script

Generators keep their place between resumptions: the variables and what is left to do. Memory also
counts the objects made, knows what the changed ones hold, and keeps the log and the shared store of
a run.
-/
namespace Rehearsal.Script

/-- Variables; one that is not there has no value yet. -/
abbrev Env := List (String × Value)

namespace Env

def get (env : Env) (name : String) : Value := (env.lookup name).getD .null

def set (env : Env) (name : String) (v : Value) : Env :=
  (name, v) :: env.filter fun e => e.1 != name

/-- Keeps a value under a name, if there is one. -/
def bind (env : Env) (name : Option String) (v : Value) : Env :=
  match name with
  | some name => env.set name v
  | none => env

/-- The variables a call starts with: positional arguments first, then those by name, and all
positional arguments together as `args`. -/
def ofCall (params : List String) (args : List Value) (kwargs : List (String × Value)) : Env :=
  let bound := params.zipIdx.map fun p => (p.1, match args[p.2]? with
    | some v => v
    | none => (kwargs.lookup p.1).getD .null)
  ("args", .tuple args) :: bound

end Env

/-- How a statement ended. -/
inductive Completion where
  | normal
  | returned (v : Value)
  | raised (e : Exn)
  | stopped
  | continued

/-- What is left to do after the statement at hand, innermost first. -/
inductive Kont where
  | seq (rest : List Stmt)
  | loop (c : Expr) (body : List Stmt)
  /-- A loop over a source, which has visited `i` items of it. -/
  | each (name : String) (source : Value) (i : Nat) (body : List Stmt)
  /-- A loop over what the generator `g` yields. -/
  | drawing (name : String) (g : Nat) (body : List Stmt)
  /-- Within a guarded body. -/
  | guarded (handlers : List Handler) (final : Option (List Stmt))
  /-- Within the handler of `e`. -/
  | handling (e : Exn) (final : Option (List Stmt))
  /-- Within a final body, with what was in flight before it. -/
  | closing (pending : Completion)
  /-- Suspended: what is sent is kept under a name. -/
  | receive (name : Option String)
  /-- Suspended within the generator `g`. -/
  | delegating (g : Nat) (name : Option String)
  /-- Suspended at an item of a source that is yielded item by item, the `i`-th of them being next;
  `kind` is what draws the items. -/
  | supplying (kind : String) (source : Value) (i : Nat) (name : Option String)

/-- The exception that a bare raise means: the one handled, or in flight, innermost. -/
def currentException? : List Kont → Option Exn
  | [] => none
  | .handling e _ :: _ => some e
  | .closing (.raised e) :: _ => some e
  | _ :: ks => currentException? ks

inductive GeneratorState where
  | fresh (env : Env) (body : List Stmt)
  | suspended (env : Env) (konts : List Kont)
  | running
  | finished

structure Memory where
  generators : Array GeneratorState
  /-- How many objects with identity, and how many constants that hold some, have been made. -/
  made : Nat
  /-- What the lists and dicts that were changed hold now. -/
  held : List (Nat × Value)
  /-- Logged values, each with the step it was logged at. -/
  log : Array (Nat × Value)
  shared : List (String × Value)

namespace Memory

def empty : Memory := ⟨#[], 0, [], #[], []⟩

def setGenerator (mem : Memory) (g : Nat) (s : GeneratorState) : Memory :=
  { mem with generators := mem.generators.setIfInBounds g s }

/-- A new generator. -/
def newGenerator (mem : Memory) (env : Env) (body : List Stmt) : Nat × Memory :=
  (mem.generators.size, { mem with generators := mem.generators.push (.fresh env body) })

/-- The number of the next object. -/
def newNumber (mem : Memory) : Nat × Memory := (mem.made, { mem with made := mem.made + 1 })

/-- The values with objects for all lists and dicts in them. -/
def adoptAll (mem : Memory) (vs : List Value) : List Value × Memory :=
  let (ws, made) := adoptedAll mem.made vs
  (ws, { mem with made })

/-- Object `n` holds `v` from now on. -/
def hold (mem : Memory) (n : Nat) (v : Value) : Memory :=
  { mem with held := (n, v) :: mem.held.filter fun e => e.1 != n }

/-- What object `n` holds, if that has changed. The objects within it are followed `depth` deep. -/
def held? (mem : Memory) : Nat → Nat → Option Value
  | 0, _ => none
  | depth + 1, n => (mem.held.lookup n).map (Value.revised (mem.held? depth) true)

/-- The value as it stands now. What holds itself is followed no deeper than the changed objects
can lie one within another. -/
def now (mem : Memory) (v : Value) : Value :=
  if mem.held.isEmpty then v else v.revised (mem.held? mem.held.length) true

/-- What the value shows as it stands now. -/
def shown (mem : Memory) (v : Value) : Value := (mem.now v).bare

end Memory

/-- Computations of scripts: they may raise, and they keep what they did to the memory. -/
abbrev Eval := ExceptT Exn (StateM Memory)

namespace Eval

def newNumber : Eval Nat := modifyGet fun mem => mem.newNumber

/-- The origin of the next object. -/
def newOrigin : Eval Origin := do return .script (← newNumber)

/-- The values, whose lists and dicts are objects from here on. -/
def adoptAll (vs : List Value) : Eval (List Value) := modifyGet fun mem => mem.adoptAll vs

def adopt (v : Value) : Eval Value := do return (← adoptAll [v]).headD v

/-- The value as it stands now. -/
def see (v : Value) : Eval Value := do return (← get).now v

/-- What the value shows as it stands now. -/
def look (v : Value) : Eval Value := do return (← get).shown v

/-- Raises the exception of a refusal. -/
def refuse {α : Type} (r : Refusal) : Eval α := do
  throw (r.at (← newOrigin))

def ofExcept {α : Type} : Except Refusal α → Eval α
  | .ok a => pure a
  | .error r => refuse r

end Eval

end Rehearsal.Script
