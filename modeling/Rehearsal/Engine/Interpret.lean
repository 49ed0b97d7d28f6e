import Rehearsal.Engine.Settle

/-!
# Interpreting effects

One effect of one task, as far as it can be interpreted at once. Calls and forks go by the plan
the world makes for them, joins and composites block on what is not finished, and effects of other
classes go to the handler registered for them.
-/
namespace Rehearsal

variable {σ : Type}

/-- What an interpretation leaves behind: what to do next, and what then waits for it. -/
structure Outcome (σ : Type) where
  machine : Machine σ
  frames : List Frame
  control : Control

namespace Outcome

def answer (m : Machine σ) (a : Answer) : Outcome σ := ⟨m, [], .answer a⟩

def advance (m : Machine σ) (v : Value) : Outcome σ := answer m (.advance v)

def failure (m : Machine σ) (f : Failure) : Outcome σ := ⟨m, [], f.control⟩

def raise (m : Machine σ) (e : Exn) : Outcome σ := failure m (.exn e)

def abort (m : Machine σ) (h : HarnessError) : Outcome σ := failure m (.harness h)

/-- Gives up the run with a report that shows `v`, which has to be written for it. -/
def report (m : Machine σ) (v : Value) (h : HarnessError) : Outcome σ :=
  failure m (match v.checkLong with
    | .ok _ => .harness h
    | .error r => m.unwritten r)

end Outcome

namespace Machine

/-- What a plan makes of a call: an exception, the value of the invoked function, or the
output. -/
def produce (w : World σ) (m : Machine σ) (plan : CallPlan) (call : Call) :
    Except Exn Value × Machine σ :=
  match plan.error with
  | some e => (.error e, m)
  | none =>
    if plan.invoke then
      let (r, s) := w.invoke m.view call m.outer
      (r, { m with outer := s })
    else (.ok plan.output, m)

/-- A value produced for a call is entered if it is a generator. -/
def produced (m : Machine σ) (v : Value) : Outcome σ :=
  match v with
  | .generator g => .answer m (.enter g)
  | v => .advance m v

def interpretCall (w : World σ) (m : Machine σ) (t : Nat) (call : Call) : Outcome σ :=
  match w.plan m.view call false m.outer with
  | (.error f, s) => .failure { m with outer := s } f
  | (.ok plan, s) =>
    let m := { m with outer := s }
    if plan.wait = .now then
      match m.produce w plan call with
      | (.error e, m) => .raise m e
      | (.ok v, m) => m.produced v
    else
      let (m, child) := m.create call.name plan.wait (some t) false (some (.planned plan call))
      .answer m (.block (.onChild child))

/-- The new task belongs to the task whose generator asked for it, unless it is detached. A task
that need not wait starts before the forking task goes on. -/
def interpretFork (w : World σ) (m : Machine σ) (t : Nat) (call : Call) (detached : Bool) :
    Outcome σ :=
  match w.plan m.view call true m.outer with
  | (.error f, s) => .failure { m with outer := s } f
  | (.ok plan, s) =>
    let m := { m with outer := s }
    let parent := if detached then none else some (m.registry.coroutineOwner t)
    let (m, child) := m.create call.name plan.wait parent detached (some (.planned plan call))
    if plan.wait = .now then ⟨m, [.forked child], .start child⟩
    else .advance m (.marker ⟨child, call.name, true⟩)

/-- A fork whose task was started goes on with its marker, or with its failure. -/
def afterFork (m : Machine σ) (child : Nat) : Outcome σ :=
  match m.get? child with
  | some task => match task.error with
    | some e => if task.detached then .advance m (.marker task.marker) else .raise m e
    | none => .advance m (.marker task.marker)
  | none => .raise m (m.unknownTask child)

/-- The first marker that belongs to no task. -/
def unknownTarget? (m : Machine σ) (targets : Targets) : Option Nat :=
  (targets.markers.find? fun k => (m.get? k.id).isNone).map (·.id)

def interpretJoin (m : Machine σ) (targets : Targets) : Outcome σ :=
  match m.unknownTarget? targets with
  | some id => .raise m (m.unknownTask id)
  | none =>
    let pending := m.registry.settleFinished (.ofTargets targets)
    let remaining := pending.waitingOn
    if remaining.isEmpty then .advance m pending.unwrap
    else .answer m (.block ⟨.join, pending, remaining, none⟩)

def interpretCancel (m : Machine σ) (targets : Targets) : Outcome σ :=
  match m.unknownTarget? targets with
  | some id => .raise m (m.unknownTask id)
  | none =>
    let ids := targets.markers.map (·.id)
    .advance { m with registry := m.registry.cancelAll ids } .null

def interpretCancelSelf (m : Machine σ) (t : Nat) : Outcome σ :=
  .advance { m with registry := m.registry.cancelTree (m.registry.coroutineOwner t) } .null

def interpretCancelled (m : Machine σ) (t : Nat) : Outcome σ :=
  match m.get? (m.registry.coroutineOwner t) with
  | some task => .advance m (.bool task.cancelled)
  | none => .advance m (.bool false)

def interpretDelay (m : Machine σ) (t : Nat) (ticks : Nat) : Outcome σ :=
  let (m, child) := m.create "delay" (.tick ticks) (some t) false none
  .answer m (.block (.onChild child))

/-- The members of a race or gather with their keys. -/
def memberItems : Members → List (Value × Value)
  | .listed xs => xs.zipIdx.map fun e => (.int e.2, e.1)
  | .keyed m => m.entries

def isKeyed : Members → Bool
  | .listed _ => false
  | .keyed _ => true

/-- The error of the first placeholder that failed. -/
def firstError? (m : Machine σ) (placeholders : List Nat) : Option Exn :=
  placeholders.findSome? fun p => (m.get? p).bind (·.error)

/-- All members have been looked at: the composite fails with its first failed member, advances
if it is decided, and blocks otherwise. -/
def concludeComposite (m : Machine σ) (c : Composite) : Outcome σ :=
  let placeholders := c.made.map (·.2)
  match m.firstError? placeholders with
  | some e => .raise m e
  | none =>
    let shape : Pending :=
      if c.keyed then .keyed false (c.made.map fun e => (e.1, .task e.2))
      else .list (placeholders.map .task)
    let pending := m.registry.settleFinished shape
    let remaining := pending.waitingOn
    if c.isRace && remaining.length < placeholders.length then
      .advance { m with registry := remaining.foldl Registry.letGo m.registry } pending.unwrap
    else if remaining.isEmpty then .advance m pending.unwrap
    else
      let kind := if c.isRace then InterruptionKind.race else .all
      .answer m (.block ⟨kind, pending, remaining, none⟩)

/-- Interprets the next member for a placeholder of its own, or concludes. The placeholder runs
while its member is interpreted, so that failures of what it starts surface there. -/
def continueComposite (m : Machine σ) (c : Composite) : Outcome σ :=
  match c.rest with
  | [] => m.concludeComposite c
  | (key, member) :: rest =>
    let label := if c.isRace then "race" else "all"
    let tier := if c.isRace then WaitTier.race else .all
    let (m, p) := m.create (label ++ "[" ++ key.plain ++ "]") (.tier tier) (some c.task) false none
    let m := m.modify p fun task => { task with running := true }
    ⟨m, [.member p, .composite { c with made := c.made ++ [(key, p)], rest }],
      .interpret p member true⟩

def interpretComposite (m : Machine σ) (t : Nat) (isRace : Bool) (members : Members) : Outcome σ :=
  m.continueComposite ⟨t, isRace, isKeyed members, [], memberItems members⟩

/-- The name of a deferred task; an empty name is no name. -/
def deferredName : Option String → String
  | some s => if s == "" then "deferred" else s
  | none => "deferred"

def interpretExternal (w : World σ) (m : Machine σ) (t : Nat) (e : Effect) (inComposite : Bool) :
    Outcome σ :=
  match w.handler? e with
  | none => .abort m (.unmatched ("No handler registered for " ++ e.className) (some m.steps))
  | some handler =>
    let context : Context := ⟨⟨t, m.nameOf t, true⟩, inComposite, m.steps⟩
    let (reaction, s) := handler m.view context m.outer
    let m := { m with outer := s }
    match reaction with
    | .error f => .failure m f
    | .ok (.advance v) => .advance m v
    | .ok (.defer v wait name) =>
      let (m, child) := m.create (deferredName name) wait (some t) false (some (.constant v))
      .answer m (.block (.onChild child))
    | .ok (.invalid v) =>
      .report m v (.plain ("Handler for " ++ e.className ++ " returned " ++ v.repr))

/-- One effect of task `t`, after its step has been counted. -/
def interpretEffect (w : World σ) (m : Machine σ) (t : Nat) (e : Effect) (inComposite : Bool) :
    Outcome σ :=
  match e with
  | .call fn args kwargs => m.interpretCall w t ⟨fn, args, kwargs⟩
  | .fork fn args kwargs detached => m.interpretFork w t ⟨fn, args, kwargs⟩ detached
  | .join targets => m.interpretJoin targets
  | .race members => m.interpretComposite t true members
  | .gather members => m.interpretComposite t false members
  | .cancel targets => m.interpretCancel targets
  | .cancelSelf => m.interpretCancelSelf t
  | .cancelled => m.interpretCancelled t
  | .delay ticks => m.interpretDelay t ticks
  | e => m.interpretExternal w t e inComposite

/-- What task `t` yielded. Every interpretation counts as a step; a generator is entered, and
anything that is neither generator nor effect ends the run. -/
def interpret (w : World σ) (o : RunOptions) (m : Machine σ) (t : Nat) (effect : Value)
    (inComposite : Bool) : Outcome σ :=
  match m.tick o with
  | (.error f, m) => .failure m f
  | (.ok (), m) =>
    match effect with
    | .generator g => .answer m (.enter g)
    | .effect e => m.interpretEffect w t e inComposite
    | v => .report m v (.unmatched
        ("Task " ++ m.nameOf t ++ " yielded " ++ v.repr ++ ", which is not an effect")
        (some m.steps))

end Machine

end Rehearsal
