import Rehearsal.Value.Access
import Rehearsal.Value.LongNumber
import Rehearsal.Value.Object

/-!
# Matching

Expected values are compared by equality, except that a placeholder standing for a whole value
accepts many. Action patterns are the wildcard, a type, a predicate, or a list of types and
predicates. Predicates are asked through `holds`, in whatever monad asking them takes place.
-/
namespace Rehearsal

variable {m : Type → Type} [Monad m]

namespace Placeholder

/-- Whether the placeholder stands for the value `v`. -/
def accepts (holds : Value → Value → m Bool) (p : Placeholder) (v : Value) : m Bool :=
  match p with
  | anything => pure true
  | anyTask => pure (v.isInstance .marker)
  | instanceOf t => pure (v.isInstance t)
  | instanceOfAny ts => pure (ts.any v.isInstance)
  | satisfying predicate => holds predicate v

end Placeholder

namespace Value

/-- Whether `received` is as expected. -/
def matchesValue (holds : Value → Value → m Bool) (expected received : Value) : m Bool :=
  match expected with
  | placeholder p => p.accepts holds received
  | expected => pure (expected.eq received.bare)

/-- Whether all received values are as expected, pair by pair up to the first that is not. -/
def matchesAll (holds : Value → Value → m Bool) : List Value → List Value → m Bool
  | e :: es, r :: rs => do
    if ← e.matchesValue holds r then matchesAll holds es rs else return false
  | _, _ => pure true

end Value

/-- Whether call arguments satisfy expected parameters; no parameters at all accept anything. -/
def paramsMatch (holds : Value → Value → m Bool) (params : Option (List Value))
    (args : List Value) : m Bool :=
  match params with
  | none => pure true
  | some ps => if ps.length = args.length then Value.matchesAll holds ps args else pure false

/-- The pattern that every action matches. -/
def wildcard : String := "*"

/-- Whether an action of type `kind` matches one entry of a list of patterns: a text is a type, all
else is asked. -/
def entryMatches (holds : Value → Value → m Bool) (kind : String) (action entry : Value) : m Bool :=
  match entry with
  | .text s => pure (s == kind)
  | entry => holds entry action

/-- Whether an action matches a pattern. The type of the action is written out for it. -/
def actionMatches (holds : Value → Value → m Bool) (action pattern : Value) :
    m (Except Refusal Bool) :=
  if pattern.eq (.text wildcard) then pure (.ok !action.isNull)
  else if pattern.isCallable then do return .ok (← holds pattern action)
  else match action with
    | .dict a =>
      let kind := (a.getText? "type").getD .null
      let entries := pattern.items?.getD [pattern]
      match kind.checkLong with
      | .error r => pure (.error r)
      | .ok _ => do return .ok (← entries.anyM (entryMatches holds kind.plain action))
    | _ => pure (.ok false)

end Rehearsal
