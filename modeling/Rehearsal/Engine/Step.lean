import Rehearsal.Task.Batch
import Rehearsal.Engine.Interpret

/-!
# One step of the scheduler

`Config.step` performs one step of whatever is going on: an effect is interpreted, a coroutine is
resumed, a task is started, finished or failed, or a finished activity hands over to the frame
that waits for it. Exceptions of tested code are caught by the innermost task that is being driven
and thrown into it; failures of the bench unwind everything.
-/
namespace Rehearsal

variable {σ : Type}

namespace Config

def halt (m : Machine σ) (stack : List Frame) : Config σ := ⟨m, stack, .done⟩

def ofOutcome (stack : List Frame) (r : Outcome σ) : Config σ :=
  ⟨r.machine, r.frames ++ stack, r.control⟩

/-- What a resumed coroutine of task `t` leads to. While the task is driven its frame stands on
the stack. -/
def afterProgress (m : Machine σ) (stack : List Frame) (t : Nat) : Progress → Config σ
  | .suspended effect => ⟨m, .driving t :: stack, .interpret t effect false⟩
  | .finished v =>
    ⟨m.modify t fun task => { task with running := false }, stack, .complete t v⟩
  | .raised e =>
    if e.kind.isOrdinary then
      ⟨m.modify t fun task => { task with running := false }, stack, .fail t e⟩
    else ⟨m, .driving t :: stack, .abort (.exn e)⟩

/-- Resumes the coroutine of `t` by `go`; a task without one is a mistake of the scheduler. -/
def withCoroutine (m : Machine σ) (stack : List Frame) (t : Nat)
    (go : Coroutine → σ → Progress × Coroutine × σ) : Config σ :=
  match (m.get? t).bind (·.coroutine) with
  | none =>
    ⟨m.modify t fun task => { task with running := false }, stack,
      .raised (m.exception .assertion [])⟩
  | some c =>
    let (p, c, s) := go c m.outer
    let m := { m with outer := s }
    afterProgress (m.modify t fun task => { task with coroutine := some c }) stack t p

/-- Resumes a task whose coroutine sees `view`. -/
def resumeSeeing (w : World σ) (view : View) (m : Machine σ) (stack : List Frame) (t : Nat)
    (signal : Signal) : Config σ :=
  withCoroutine m stack t fun c s => c.resume w view signal s

def resume (w : World σ) (m : Machine σ) (stack : List Frame) (t : Nat) (signal : Signal) :
    Config σ :=
  resumeSeeing w m.view m stack t signal

def enter (w : World σ) (m : Machine σ) (stack : List Frame) (t : Nat) (g : Nat) : Config σ :=
  withCoroutine m stack t fun c s => c.enter w m.view g s

/-- Resumes a task until it blocks or ends. -/
def drive (w : World σ) (m : Machine σ) (stack : List Frame) (t : Nat) (signal : Signal) :
    Config σ :=
  resume w (m.modify t fun task => { task with running := true }) stack t signal

/-- The answer to the effect that the top frame waits for. -/
def deliver (w : World σ) (o : RunOptions) (m : Machine σ) (a : Answer) : List Frame → Config σ
  | .driving t :: stack =>
    match a with
    | .advance v => resume w m stack t (.send v)
    | .enter g => enter w m stack t g
    | .block i =>
      let m := m.modify t fun task => { task with running := false }
      halt (m.suspend o t i) stack
  | .member p :: stack =>
    let m := m.modify p fun task => { task with running := false }
    match a with
    | .advance v => ⟨m, stack, .complete p v⟩
    | .enter g =>
      ⟨m.modify p fun task => { task with coroutine := some (.ofGenerator g) }, stack,
        .drive p (.send .null)⟩
    | .block i => halt (m.suspend o p i) stack
  | stack => halt m stack

/-- An exception reaches the top frame. The task it is thrown into is resumed while it is being
handled. -/
def catchException (w : World σ) (m : Machine σ) (e : Exn) : List Frame → Config σ
  | .driving t :: stack =>
    resumeSeeing w { m.view with handled := some e } m stack t (.throw e)
  | .member p :: stack =>
    ⟨m.modify p fun task => { task with running := false }, stack, .fail p e⟩
  | _ :: stack => ⟨m, stack, .raised e⟩
  | [] => ⟨m, [], .raised e⟩

/-- The run is given up: tasks that are being driven stop running, frame by frame. -/
def unwind (m : Machine σ) (f : Failure) : List Frame → Config σ
  | .driving t :: stack =>
    ⟨m.modify t fun task => { task with running := false }, stack, .abort f⟩
  | _ :: stack => ⟨m, stack, .abort f⟩
  | [] => ⟨m, [], .abort f⟩

/-- The machine while the failure of a task at its start is dealt with, which is done while the
exception is being handled. The failure of a task that was forked to start at once resumes nobody:
the task that forked it is running. -/
def handling (m : Machine σ) (e : Exn) : List Frame → Machine σ
  | .forked _ :: _ => m
  | _ => { m with handled := some e }

/-- Starts a task: what its entry produces is entered if it is a generator, and is its value
otherwise. A task without an entry has its value already. -/
def start (w : World σ) (o : RunOptions) (m : Machine σ) (stack : List Frame) (t : Nat) :
    Config σ :=
  match m.get? t with
  | none => ⟨m, stack, .raised (m.unknownTask t)⟩
  | some task =>
    let m := m.modify t fun task => { task with entry := none }
    match task.entry with
    | none => halt (m.complete o t task.result) stack
    | some entry =>
      let (produced, m) := match entry with
        | .planned plan call => m.produce w plan call
        | .constant v => (.ok v, m)
      match produced with
      | .ok (.generator g) =>
        ⟨m.modify t fun task => { task with coroutine := some (.ofGenerator g) }, stack,
          .drive t (.send .null)⟩
      | .ok v => halt (m.complete o t v) stack
      | .error e =>
        if e.kind.isOrdinary then ⟨handling m e stack, stack, .fail t e⟩
        else ⟨m, stack, .abort (.exn e)⟩

/-- What an interruption answered, as a value to go on with. -/
def answerValue : Pending → Value
  | .value v => v
  | p => p.unwrap

/-- Runs a selected task: starts it, or lets it go on with the answer to what it waited for.
Nothing is being handled then. -/
def runTask (m : Machine σ) (stack : List Frame) (t : Nat) : Config σ :=
  match m.get? t with
  | none => ⟨m, stack, .raised (m.unknownTask t)⟩
  | some task =>
    let m := { m with handled := none }
    match task.interruption with
    | none => ⟨m, stack, .start t⟩
    | some ⟨_, _, _, none⟩ => ⟨m, stack, .raised (m.nothingToConsume t)⟩
    | some ⟨kind, _, _, some answer⟩ =>
      let m := m.modify t fun task => { task with interruption := none }
      if kind = .children then
        match answer with
        | .failed e => halt (m.finalize t (.error e)) stack
        | .returned v => halt (m.finalize t v) stack
        | _ => halt m stack
      else if task.coroutine.isNone then ⟨m, stack, .complete t (answerValue answer)⟩
      else ⟨m, stack, .drive t (.send (answerValue answer))⟩

/-- Drops what `parent` waits for because `failed` has failed. The other members of a race or
gather are let go. Tells whether the parent waited for the failed task itself. -/
def abandon (m : Machine σ) (parent failed : Nat) : Bool × Machine σ :=
  match (m.get? parent).bind (·.interruption) with
  | none => (false, m)
  | some i =>
    let m := m.modify parent fun task => { task with interruption := none }
    if i.kind = .join || i.kind = .children then (false, m)
    else
      let letGo := fun (r : Registry) (other : Nat) =>
        match r.get? other with
        | some task =>
          if other != failed && task.parent == some parent && !task.done then r.letGo other else r
        | none => r
      (i.dependencies.contains failed,
        { m with registry := i.pending.waitingOn.foldl letGo m.registry })

/-- Who learns of the failure of task `t`: its parent, unless one of the two has been cut off or
the parent is running or has failed itself. A task without a parent ends the run, but for detached
ones whose errors are swallowed. -/
def propagate (o : RunOptions) (m : Machine σ) (stack : List Frame) (t : Nat) (e : Exn) :
    Config σ :=
  match m.get? t with
  | none => ⟨m, stack, .raised (m.unknownTask t)⟩
  | some task =>
    match task.parent with
    | none =>
      if task.detached && o.swallowSpawnErrors then
        halt (m.note ("Swallowed error of spawned task " ++ task.name ++ " (id " ++
          toString task.id ++ "): " ++ e.literal)) stack
      else ⟨m, stack, .abort (.harness (.testedCode e task.id task.name m.steps))⟩
    | some p =>
      if task.abandoned then halt m stack
      else match m.get? p with
        | none => ⟨m, stack, .raised (m.unknownTask p)⟩
        | some parent =>
          if parent.running || parent.error.isSome || parent.abandoned then halt m stack
          else
            let (direct, m) := abandon m p t
            if parent.coroutine.isNone then ⟨m, stack, .fail p e⟩
            else
              let m := if direct then m
                else { m with registry := m.registry.cancelAll parent.children }
              ⟨m, stack, .drive p (.throw e)⟩

/-- Begins a round of bubbling what has finished, if anything has. -/
def bubble (o : RunOptions) (m : Machine σ) (stack : List Frame) (finished : List Nat) : Config σ :=
  if finished.isEmpty then halt m stack
  else match m.noteBubbling o (m.registry.select finished) with
    | .error f => ⟨m, stack, .abort f⟩
    | .ok m => halt m (.round finished m.registry.pending :: stack)

/-- Looks at the next pending task of a round, or begins another round with what finished
meanwhile. -/
def continueRound (m : Machine σ) (stack : List Frame) (finished : List Nat) :
    List Nat → Config σ
  | [] =>
    let (r, next) := m.registry.reap
    ⟨{ m with registry := r }, stack, .bubble next⟩
  | t :: rest =>
    let again := .round finished rest :: stack
    match m.get? t with
    | none => halt m again
    | some task =>
      if task.done then halt m again
      else
        let m := m.modify t fun task => task.removeChildren finished
        match task.interruption with
        | none => halt m again
        | some i =>
          if i.resolved then halt m again
          else match m.registry.settle t i finished with
            | .error refusal => ⟨m, again, .raised (refusal.at (.scheduler m.steps))⟩
            | .ok (satisfied, i, r) =>
              let m := { m with registry := r }
              let m := m.modify t fun task => task.awaiting i
              if satisfied && task.wait.isNow && !task.running then ⟨m, again, .runTask t⟩
              else halt m again

/-- Whether the run of `root` has come to its end. -/
def settled (o : RunOptions) (m : Machine σ) (root : Nat) : Bool :=
  m.registry.isDone root && (!o.waitForSpawned || m.registry.pending.isEmpty)

/-- The main loop: the next ready batch, or the end. -/
def continueLoop (o : RunOptions) (m : Machine σ) (root : Nat) : Config σ :=
  if settled o m root then halt m []
  else match m.tick o with
    | (.error f, m) => ⟨m, [.loop root], .abort f⟩
    | (.ok (), m) =>
      let batch := selectReadyBatch m.registry.pendingTasks
      if batch.isEmpty then ⟨m, [.loop root], .abort m.deadlock⟩
      else match m.noteUnblocking o batch with
        | .error f => ⟨m, [.loop root], .abort f⟩
        | .ok m => halt m [.batch (batch.map (·.id)), .loop root]

/-- Runs the next task of a batch that is still selectable; the end of a batch bubbles what has
finished. -/
def continueBatch (m : Machine σ) (stack : List Frame) : List Nat → Config σ
  | [] =>
    let (r, finished) := m.registry.reap
    ⟨{ m with registry := r }, stack, .bubble finished⟩
  | t :: rest =>
    match m.get? t with
    | some task =>
      if task.isSelectable then ⟨m, .batch rest :: stack, .runTask t⟩
      else halt m (.batch rest :: stack)
    | none => halt m (.batch rest :: stack)

/-- An activity has ended: the top frame goes on. -/
def proceed (o : RunOptions) (m : Machine σ) : List Frame → Config σ
  | [] => halt m []
  | .driving _ :: stack | .member _ :: stack => halt m stack
  | .composite c :: stack => ofOutcome stack (m.continueComposite c)
  | .forked child :: stack => ofOutcome stack (m.afterFork child)
  | .batch rest :: stack => continueBatch m stack rest
  | .round finished rest :: stack => continueRound m stack finished rest
  | .loop root :: _ => continueLoop o m root

/-- One step. -/
def step (w : World σ) (o : RunOptions) (c : Config σ) : Config σ :=
  let m := c.machine
  match c.control with
  | .done => proceed o m c.stack
  | .raised e => catchException w m e c.stack
  | .abort f => unwind m f c.stack
  | .answer a => deliver w o m a c.stack
  | .drive t signal => drive w m c.stack t signal
  | .interpret t effect inComposite => ofOutcome c.stack (m.interpret w o t effect inComposite)
  | .runTask t => runTask m c.stack t
  | .start t => start w o m c.stack t
  | .complete t v => halt (m.complete o t v) c.stack
  | .fail t e => match m.fail o t e with
    | some m => ⟨m, c.stack, .propagate t e⟩
    | none => halt m c.stack
  | .propagate t e => propagate o m c.stack t e
  | .bubble finished => bubble o m c.stack finished

/-- Nothing is left to do: the stack is empty and the control is at rest. -/
def isFinal (c : Config σ) : Bool :=
  c.stack.isEmpty && match c.control with
    | .done | .raised _ | .abort _ => true
    | _ => false

end Config

end Rehearsal
