import Rehearsal.Failure

/-!
# Stand-ins

A stand-in takes the place of a generator function and never runs: calling it makes a call effect
that the expected calls have to answer.
-/
namespace Rehearsal

namespace Function

/-- Whether calling the function makes a generator. -/
def isGenerator (f : Function) : Bool := f.kind == .generator

/-- The stand-in of a name. -/
def standIn (name : String) : Function := ⟨name, .standIn⟩

end Function

namespace Value

/-- The generator function that a value is, if it is one. -/
def generatorFunction? : Value → Option Function
  | function f => if f.isGenerator then some f else none
  | _ => none

/-- Whether calls of the value are never made. -/
def isStandIn : Value → Bool
  | function f => f.kind == .standIn
  | _ => false

/-- A value with its generator function replaced. -/
def replaced (v : Value) : Value :=
  match v.generatorFunction? with
  | some f => function (.standIn f.name)
  | none => v

/-- The stand-in of a name or a generator function, or a mapping with all its generator functions
replaced. -/
def standIn (target : Value) : Except Refusal Value :=
  match target with
  | text name => .ok (function (.standIn name))
  | dict m => .ok (dict ⟨false, m.entries.map fun e => (e.1, e.2.replaced)⟩)
  | v => match v.generatorFunction? with
    | some f => .ok (function (.standIn f.name))
    | none => .error (.typed
        ("mock_generator expects a generator function, a name or a mapping, got " ++ v.typeName))

end Value

end Rehearsal
