import Rehearsal.Value.Arithmetic
import Rehearsal.Value.Renewal
import Rehearsal.Script.Construct

/-!
# Running scripts

Expressions are evaluated at once; a generator's body runs from one yield to the next and keeps
what is left of it as continuations. Calls and delegations nest to a limited depth, past which a
script gets an exception, and bodies run under a bound on their statements, so everything here is
total.

Lists and dicts are objects that all who hold them see change. An operator looks at its operands as
they stand when it is applied, and a loop over a list at the item that is next.
-/
namespace Rehearsal.Script

open Eval

/-- Where a body stands after one statement. -/
inductive Flow where
  /-- Goes on after a statement that ended so. -/
  | next (env : Env) (konts : List Kont) (c : Completion)
  /-- Gives up control with a value. -/
  | suspend (v : Value) (env : Env) (konts : List Kont)

/-- How a body, or a stretch of it, ended. -/
inductive Ending where
  | yielded (v : Value) (env : Env) (konts : List Kont)
  | returned (v : Value)
  | raised (e : Exn)

/-- An operator with one operand. -/
def UnaryOp.apply (op : UnaryOp) (v : Value) : Except Refusal Value :=
  match op with
  | .not => .ok (.bool !v.truthy)
  | .isNull => .ok (.bool v.isNull)
  | .length => v.length.map fun n => .int n
  | .plain => v.checkLong.map fun _ => .text v.plain
  | .literal => v.checkLong.map fun _ => .text v.repr
  | .typeName => .ok (.text v.typeName)

/-- An operator with two operands; `origin` identifies what it makes. -/
def BinaryOp.apply (origin : Origin) (op : BinaryOp) (a b : Value) : Except Refusal Value :=
  match op with
  | .get => a.subscript b
  | .add => a.add origin b
  | .sub => a.sub origin b
  | .mul => a.mul origin b
  | .mod => a.mod origin b
  | .eq => .ok (.bool (a.eq b))
  | .ne => .ok (.bool !(a.eq b))
  | .lt => (a.less b).map .bool
  | .le => (a.lessOrEqual b).map .bool
  | .contains => (b.contains a).map .bool

/-- What an operator works on. The items of a container stay the objects they are where they may be
items of the result. -/
def BinaryOp.operand : BinaryOp → Value → Value
  | .get | .add | .mul => Value.opened
  | _ => Value.bare

/-- The value that a type calls itself by where an attribute of it is missing. -/
def attributeOwner : Value → String
  | .typeRef t => "type object '" ++ t.name ++ "'"
  | v => "'" ++ v.typeName ++ "' object"

/-- The name of a value that has one. -/
def nameOf? : Value → Option String
  | .marker m => some m.name
  | .effect (.call fn _ _) | .effect (.fork fn _ _ _) => some fn.callName
  | .tier t => some t.label
  | .selection name => some name
  | _ => none

/-- An attribute of a value; those of a marker that change are read off the run. -/
def attributeOf (view : View) (v : Value) (name : String) : Except Refusal Value :=
  let missing := Except.error (Refusal.ofText .missingAttribute
    (attributeOwner v ++ " has no attribute '" ++ name ++ "'"))
  if name == "name" then match nameOf? v with
    | some s => .ok (.text s)
    | none => missing
  else match v with
  | .marker m =>
    let status : Status := match (if m.own then view.status? m.id else none) with
      | some s => s
      | none => ⟨.now, false, false⟩
    if name == "id" then .ok (.int m.id)
    else if name == "wait" then .ok (.ofWait status.wait)
    else if name == "is_cancelled" then .ok (.bool status.cancelled)
    else if name == "is_done" then .ok (.bool status.done)
    else missing
  | _ => missing

/-- A mapping of evaluated entries; keys have to be hashable. -/
def buildDict (es : List (Value × Value)) : Except Refusal Value := do
  es.forM fun e => e.1.checkKey
  return .dict (Mapping.ofList false es)

/-- The exception that raising a value means: itself, or a new one of a class. -/
def raisable (v : Value) : Eval Exn :=
  match v with
  | .error e => pure e
  | .typeRef (.error kind) => newException kind []
  | _ => refuse (.typed "exceptions must derive from BaseException")

/-- The first handler that takes the exception. A handler asked before it for something that is no
class of exceptions is refused. -/
def handlerFor? (e : Exn) : List Handler → Except Refusal (Option Handler)
  | [] => .ok none
  | h :: hs =>
    if !h.classes.all (·.isErrorClass) then
      .error (.typed "catching classes that do not inherit from BaseException is not allowed")
    else if h.classes.any (Value.error e).isInstance then .ok (some h)
    else handlerFor? e hs

/-- Enters the final statements, if any, with `c` in flight. -/
def closeWith (env : Env) (final : Option (List Stmt)) (c : Completion) (ks : List Kont) : Flow :=
  match final with
  | some body => .next env (.seq body :: .closing c :: ks) .normal
  | none => .next env ks c

/-- Where the end of a statement leads when something other than the next statement is due. -/
def leave (env : Env) (c : Completion) (k : Kont) (ks : List Kont) : Flow :=
  match k, c with
  | .guarded _ final, c | .handling _ final, c => closeWith env final c ks
  | .closing pending, .normal => .next env ks pending
  | .loop .., .stopped | .each .., .stopped | .drawing .., .stopped => .next env ks .normal
  | .loop cond body, .continued => .next env (.loop cond body :: ks) .normal
  | .each name source i body, .continued => .next env (.each name source i body :: ks) .normal
  | .drawing name g body, .continued => .next env (.drawing name g body :: ks) .normal
  | _, c => .next env ks c

/-- Handles an exception that leaves a guarded body, or passes it on. -/
def handle (env : Env) (e : Exn) (handlers : List Handler) (final : Option (List Stmt))
    (ks : List Kont) : Eval Flow := do
  match handlerFor? e handlers with
  | .ok (some h) =>
    return .next (env.bind h.name (.error e)) (.seq h.body :: .handling e final :: ks) .normal
  | .ok none => return closeWith env final (.raised e) ks
  | .error r => return closeWith env final (.raised (r.at (← newOrigin))) ks

/-- What a body that ran to its end yields. -/
def Completion.ending : Completion → Ending
  | .returned v => .returned v
  | .raised e => .raised e
  | .normal | .stopped | .continued => .returned .null

/-- An exception that leaves a generator. One that would pass for the generator's end is replaced
by an error. -/
def leaveGenerator (e : Exn) : Eval Exn :=
  if e.kind = .stop then newException .runtime [.text "generator raised StopIteration"] else pure e

/-- The value that an exception standing for a generator's end carries. -/
def stopValue (e : Exn) : Value := e.args.headD .null

/-- What a body needs from around it: values to call and generators to resume. -/
structure Host where
  view : View
  /-- The exception being handled around the body. -/
  handled : Option Exn
  /-- Calls a value while an exception is being handled. -/
  invoke : Option Exn → Value → List Value → List (String × Value) → Eval Value
  /-- Resumes a generator while an exception is being handled. -/
  resume : Option Exn → Nat → Signal → Eval Response

/-- The host of a statement with `ks` left to do after it. -/
def Host.within (host : Host) (ks : List Kont) : Host :=
  { host with handled := (currentException? ks).or host.handled }

/-- The item that a loop over `source` visits after `i` others. -/
def visit (source : Value) (i : Nat) : Eval (Option Value) := do
  return ((← see source).opened.items?.getD [])[i]?

/-- Does `v[k] = x`. What is no object stands nowhere else, so nothing is left of the change. -/
def assignItem (v k x : Value) : Eval Unit := do
  let w ← ofExcept (v.opened.assignItem k x)
  match v with
  | .object n _ => modify fun mem => mem.hold n w
  | _ => pure ()

mutual

/-- The value of an expression. -/
def evalExpr (host : Host) (env : Env) : Expr → Eval Value
  | .const v => pure v
  | .literal v => do adopt (v.renewed (← newNumber))
  | .var name => see (env.get name)
  | .shared key => do see (((← get).shared.lookup key).getD .null)
  | .list es => do adopt (.list (← evalAll host env es))
  | .tuple es => do return .tuple (← evalAll host env es)
  | .dict es => do adopt (← ofExcept (buildDict (← evalEntries host env es)))
  | .unary op e => do ofExcept (op.apply (← look (← evalExpr host env e)))
  | .binary op a b => do
    let x ← evalExpr host env a
    let y ← evalExpr host env b
    adopt (← ofExcept (op.apply (← newOrigin) (op.operand (← see x)) (op.operand (← see y))))
  | .both a b => do
    let x ← evalExpr host env a
    if x.truthy then evalExpr host env b else return x
  | .either a b => do
    let x ← evalExpr host env a
    if x.truthy then return x else evalExpr host env b
  | .attr e name => do ofExcept (attributeOf host.view (← evalExpr host env e) name)
  | .steps => pure (.int host.view.steps)
  | .exception kind args => do
    return .error (← newException kind (← evalAll host env args))
  | .invoke fn args kwargs => do
    let f ← evalExpr host env fn
    let xs ← evalAll host env args
    let ys ← evalNamed host env kwargs
    see (← host.invoke host.handled f xs (lastOfName ys))
  | .effect c args => do
    let xs ← evalAll host env args
    return .effect (← ofExcept (c.build (← newOrigin) xs))

def evalAll (host : Host) (env : Env) : List Expr → Eval (List Value)
  | [] => pure []
  | e :: es => do
    let v ← evalExpr host env e
    return v :: (← evalAll host env es)

def evalEntries (host : Host) (env : Env) : List (Expr × Expr) → Eval (List (Value × Value))
  | [] => pure []
  | (k, v) :: es => do
    let x ← evalExpr host env k
    let y ← evalExpr host env v
    return (x, y) :: (← evalEntries host env es)

def evalNamed (host : Host) (env : Env) : List (String × Expr) → Eval (List (String × Value))
  | [] => pure []
  | (k, e) :: es => do
    let v ← evalExpr host env e
    return (k, v) :: (← evalNamed host env es)

end

/-- What the generator that a body delegates to leads to. -/
def delegateTo (host : Host) (env : Env) (ks : List Kont) (g : Nat) (name : Option String)
    (signal : Signal) : Eval Flow := do
  match ← host.resume host.handled g signal with
  | .yielded v => return .suspend v env (.delegating g name :: ks)
  | .returned v => return .next (env.bind name v) ks .normal
  | .raised e => return .next env ks (.raised e)

/-- What the items of a source that a body yields one by one lead to, `i` of them being yielded.
Nothing can be sent to them. -/
def supply (env : Env) (ks : List Kont) (kind : String) (source : Value) (i : Nat)
    (name : Option String) (signal : Signal) : Eval Flow := do
  match signal, ← visit source i with
  | .send .null, some v => return .suspend v env (.supplying kind source (i + 1) name :: ks)
  | .send .null, none => return .next (env.bind name .null) ks .normal
  | .send _, _ =>
    let r := Refusal.ofText .missingAttribute ("'" ++ kind ++ "' object has no attribute 'send'")
    return .next env ks (.raised (r.at (← newOrigin)))
  | .throw e, _ => return .next env ks (.raised e)

/-- What the next value of a generator that a loop draws from leads to. -/
def draw (host : Host) (env : Env) (ks : List Kont) (name : String) (g : Nat)
    (body : List Stmt) : Eval Flow := do
  match ← host.resume host.handled g (.send .null) with
  | .yielded v =>
    return .next (env.set name v) (.seq body :: .drawing name g body :: ks) .normal
  | .returned _ => return .next env ks .normal
  | .raised e => return .next env ks (.raised e)

/-- Executes one statement, with `ks` left to do after it. -/
def execStmt (host : Host) (env : Env) (ks : List Kont) (s : Stmt) : Eval Flow :=
  let host := host.within ks
  let eval := evalExpr host env
  match s with
  | .assign name e => do return .next (env.set name (← eval e)) ks .normal
  | .yield name e => do return .suspend (← eval e) env (.receive name :: ks)
  | .delegate name e => do
    match ← eval e with
    | .generator g => delegateTo host env ks g name (.send .null)
    | v => do supply env ks v.iteratorName (← ofExcept v.source) 0 name (.send .null)
  | .log e => do
    let v ← look (← eval e)
    modify fun mem => { mem with log := mem.log.push (host.view.steps, v) }
    return .next env ks .normal
  | .share key e => do
    let v ← eval e
    modify fun mem => { mem with shared := (key, v) :: mem.shared.filter fun x => x.1 != key }
    return .next env ks .normal
  | .assignItem e k v => do
    let x ← eval v
    let target ← eval e
    let key ← eval k
    assignItem (← see target) key x
    return .next env ks .normal
  | .eval e => do
    let _ ← eval e
    return .next env ks .normal
  | .ret e => do return .next env ks (.returned (← eval e))
  | .raise e => do return .next env ks (.raised (← raisable (← eval e)))
  | .reraise =>
    match host.handled with
    | some e => pure (.next env ks (.raised e))
    | none => do
      return .next env ks (.raised
        (← newException .runtime [.text "No active exception to reraise"]))
  | .stop => pure (.next env ks .stopped)
  | .next => pure (.next env ks .continued)
  | .cond c yes no => do
    return .next env (.seq (if (← eval c).truthy then yes else no) :: ks) .normal
  | .loop c body => pure (.next env (.loop c body :: ks) .normal)
  | .each name e body => do
    match ← eval e with
    | .generator g => return .next env (.drawing name g body :: ks) .normal
    | v => return .next env (.each name (← ofExcept v.source) 0 body :: ks) .normal
  | .guarded body handlers final =>
    pure (.next env (.seq body :: .guarded handlers final :: ks) .normal)

/-- Does what `k` says is left to do, after a statement that ended with `c`. -/
def continueWith (host : Host) (env : Env) (c : Completion) (k : Kont) (ks : List Kont) :
    Eval Flow :=
  match k, c with
  | .seq [], .normal => pure (.next env ks .normal)
  | .seq (s :: rest), .normal =>
    tryCatch (execStmt host env (.seq rest :: ks) s)
      fun e => pure (.next env (.seq rest :: ks) (.raised e))
  | .loop cond body, .normal =>
    tryCatch
      (do
        let v ← evalExpr (host.within ks) env cond
        if v.truthy then return .next env (.seq body :: .loop cond body :: ks) .normal
        else return .next env ks .normal)
      fun e => pure (.next env ks (.raised e))
  | .each name source i body, .normal => do
    match ← visit source i with
    | some v =>
      return .next (env.set name v) (.seq body :: .each name source (i + 1) body :: ks) .normal
    | none => return .next env ks .normal
  | .drawing name g body, .normal => draw (host.within ks) env ks name g body
  | .guarded handlers final, .raised e => handle env e handlers final ks
  | k, c => pure (leave env c k ks)

/-- Does what is left to do, one statement after the other, for at most `fuel` of them. -/
def runBody (host : Host) : Nat → Env → List Kont → Completion → Eval Ending
  | 0, _, _, _ => pure (.returned .null)
  | fuel + 1, env, ks, c =>
    match ks with
    | [] => pure c.ending
    | k :: ks => do
      match ← continueWith host env c k ks with
      | .next env ks c => runBody host fuel env ks c
      | .suspend v env ks => return .yielded v env ks

/-- More statements than any body executes. -/
def unboundedFuel : Nat := Nat.pow 2 62

/-- Calls a function: a generator function makes a generator, a plain function runs to its end, a
stand-in makes a call effect. -/
def callFunction (p : Program) (host : Host) (f : Function) (args : List Value)
    (kwargs : List (String × Value)) : Eval Value :=
  match f.kind with
  | .standIn => pure (.effect (.call (.function f) args kwargs))
  | .selector id =>
    if args.isEmpty then
      refuse (.typed
        "mock_selector.<locals>.selector() missing 1 required positional argument: 'state'")
    else pure (.selection id)
  | .generator =>
    match p.find? f.name with
    | none => pure .null
    | some d => do
      let env := Env.ofCall d.params args kwargs
      return .generator (← modifyGet fun mem => mem.newGenerator env d.body)
  | .plain =>
    match p.find? f.name with
    | none => pure .null
    | some d => do
      match ← runBody host unboundedFuel (Env.ofCall d.params args kwargs)
        [.seq d.body] .normal with
      | .returned v => return v
      | .raised e => throw e
      | .yielded .. => return .null

def callValue (p : Program) (host : Host) (fn : Value) (args : List Value)
    (kwargs : List (String × Value)) : Eval Value :=
  match fn with
  | .function f | .predicate f _ => callFunction p host f args kwargs
  | .watcher w => do
    return .generator (← modifyGet fun mem => mem.newGenerator [] (watcherBody w))
  | .typeRef t => construct t args kwargs
  | v => refuse (.typed ("'" ++ v.typeName ++ "' object is not callable"))

/-- Keeps what a body that ran leaves of generator `g`. -/
def settleGenerator (g : Nat) (ending : Ending) : Eval Response := do
  match ending with
  | .yielded v env ks =>
    modify fun mem => mem.setGenerator g (.suspended env ks)
    return .yielded v
  | .returned v =>
    modify fun mem => mem.setGenerator g .finished
    return .returned v
  | .raised e =>
    modify fun mem => mem.setGenerator g .finished
    return .raised (← leaveGenerator e)

/-- Runs the body of generator `g` from where it stands. -/
def runGenerator (host : Host) (g : Nat) (flow : Eval Flow) : Eval Response := do
  modify fun mem => mem.setGenerator g .running
  match ← flow with
  | .next env ks c => settleGenerator g (← runBody host unboundedFuel env ks c)
  | .suspend v env ks => settleGenerator g (.yielded v env ks)

/-- Resumes a generator. One that has ended ends again at once, and one that runs cannot be
resumed from within itself. -/
def resumeGenerator (host : Host) (g : Nat) (signal : Signal) : Eval Response := do
  match (← get).generators[g]?.getD .finished, signal with
  | .running, _ => return .raised (← newException .value [.text "generator already executing"])
  | .finished, .send _ => return .returned .null
  | .finished, .throw e =>
    if e.kind = .stop then return .returned (stopValue e) else return .raised e
  | .fresh env body, .send .null => runGenerator host g (pure (.next env [.seq body] .normal))
  | .fresh .., .send _ =>
    return .raised (← newException .typed
      [.text "can't send non-None value to a just-started generator"])
  | .fresh .., .throw e => settleGenerator g (.raised e)
  | .suspended env (.receive name :: ks), .send v =>
    runGenerator host g (pure (.next (env.bind name v) ks .normal))
  | .suspended env (.receive _ :: ks), .throw e =>
    runGenerator host g (pure (.next env ks (.raised e)))
  | .suspended env (.delegating inner name :: ks), signal =>
    runGenerator host g (delegateTo (host.within ks) env ks inner name signal)
  | .suspended env (.supplying kind source i name :: ks), signal =>
    runGenerator host g (supply env ks kind source i name signal)
  | .suspended env ks, _ => runGenerator host g (pure (.next env ks .normal))

/-- The host of bodies that may nest calls and delegations `depth` deep. -/
def host (p : Program) (view : View) : Nat → Host
  | 0 =>
    let tooDeep := newException .recursion [.text "maximum recursion depth exceeded"]
    { view
      handled := view.handled
      invoke := fun _ _ _ _ => do throw (← tooDeep)
      resume := fun _ _ _ => do return .raised (← tooDeep) }
  | depth + 1 =>
    { view
      handled := view.handled
      invoke := fun handled fn args kwargs =>
        callValue p { host p view depth with handled } fn args kwargs
      resume := fun handled g signal =>
        resumeGenerator { host p view depth with handled } g signal }

/-- How deep calls and delegations may nest. -/
def nestingLimit : Nat := 970

/-- The host of everything a script does. -/
def outermost (p : Program) (view : View) : Host := host p view nestingLimit

/-- Calls a value from outside the script. -/
def call (p : Program) (view : View) (fn : Value) (args : List Value)
    (kwargs : List (String × Value)) : Eval Value := do
  (outermost p view).invoke view.handled fn (← adoptAll args) kwargs

/-- Evaluates an expression outside any function. -/
def eval (p : Program) (view : View) (e : Expr) : Eval Value := do
  look (← evalExpr (outermost p view) [] e)

/-- What is sent from outside is the script's from here on. -/
def receive : Signal → Eval Signal
  | .send v => do return .send (← adopt v)
  | .throw e => pure (.throw e)

/-- Resumes a generator with what is sent from outside. -/
def answer (p : Program) (view : View) (g : Nat) (signal : Signal) : Eval Response := do
  (outermost p view).resume view.handled g (← receive signal)

/-- Resumes a generator from outside the script. -/
def resume (p : Program) (view : View) (g : Nat) (signal : Signal) (mem : Memory) :
    Response × Memory :=
  match (answer p view g signal).run mem with
  | (.ok r, mem) => (r, mem)
  | (.error e, mem) => (.raised e, mem)

/-- Whether a callable accepts a value. -/
def accepts (p : Program) (view : View) (predicate v : Value) : Eval Bool := do
  return (← call p view predicate [v] []).truthy

end Rehearsal.Script
