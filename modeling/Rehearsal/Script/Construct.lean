import Rehearsal.Script.Memory
import Rehearsal.Value.TypeCall

/-!
# Calling a type

Exceptions are made by calling their class, and the plain types convert what they are given.
-/
namespace Rehearsal

/-- The arguments an exception of the class keeps. An error of configuration takes one message and
says what it is about; one about an effect takes one message as well. -/
def ErrorClass.arguments (kind : ErrorClass) (args : List Value) : Except Refusal (List Value) :=
  match kind with
  | .configuration => do
    checkArity kind.name ["message"] 1 args.length
    args.forM Value.checkLong
    return args.map fun v =>
      .text ("Error in the configuration of SagaTester: " ++ v.plain)
  | .unmatched => do
    checkArity kind.name ["message"] 1 args.length
    args.forM Value.checkLong
    return args.map fun v => .text v.plain
  | _ => .ok args

namespace Script.Eval

/-- A new exception. -/
def newException (kind : ErrorClass) (args : List Value) : Eval Exn := do
  let args ← ofExcept (kind.arguments args)
  return ⟨kind, args, ← newOrigin⟩

/-- Calls a type. -/
def construct (t : TypeName) (args : List Value) (named : List (String × Value)) : Eval Value :=
  match t with
  | .error kind => do
    ofExcept (Value.withoutNamed kind.name named)
    return .error (← newException kind args)
  | t => do
    adopt (← ofExcept (Value.convert (← newOrigin) t (args.map .opened) named))

end Script.Eval

end Rehearsal
