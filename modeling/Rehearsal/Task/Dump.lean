import Rehearsal.Text.Lines
import Rehearsal.Value.LongNumber
import Rehearsal.Value.Render
import Rehearsal.Task.Registry

/-!
# Task diagnostics

What the pending tasks look like in reports: one header line a task, what it depends on, and how
much of a structure it waits for is already known. A report that has to show a number too long to
be written, in a value or as a tick, is refused.
-/
namespace Rehearsal

open Text

/-- A task in a report. -/
structure DumpEntry where
  id : Nat
  name : String
  wait : Wait
  dependencies : List Nat
  /-- The structure it waits for, while some of it is missing. -/
  partialValue : Option String

structure TaskDump where
  header : String
  entries : List DumpEntry

def TaskDump.ids (d : TaskDump) : List Nat := d.entries.map (·.id)

/-- The tasks that `t` waits on, given all that are pending. -/
def Task.dependencies (t : Task) (pending : List Task) : List Nat :=
  if t.wait = .tier .children then
    (pending.filter fun p => p.parent == some t.id).map (·.id)
  else match t.interruption with
    | some i => i.dependencies
    | none => []

/-- Whether the tick of a wait state has too many digits. -/
def Wait.hasLong : Wait → Bool
  | tick n => isLong n
  | _ => false

namespace Registry

def hasLongTick (r : Registry) (id : Nat) : Bool := (r.get? id).any (·.wait.hasLong)

mutual

/-- Whether what is shown of a pending structure has a number in it that is too long. Of a task that
is its tick. -/
def showsLong (r : Registry) : Pending → Bool
  | .task id => r.hasLongTick id
  | .completed v | .returned v | .value v => v.hasLong
  | .failed e => (Value.error e).hasLong
  | .list ps | .tuple ps => r.anyShowsLong ps
  | .keyed _ es => r.anyEntryShowsLong es

def anyShowsLong (r : Registry) : List Pending → Bool
  | [] => false
  | p :: ps => r.showsLong p || r.anyShowsLong ps

def anyEntryShowsLong (r : Registry) : List (Value × Pending) → Bool
  | [] => false
  | (k, p) :: es => k.hasLong || r.showsLong p || r.anyEntryShowsLong es

end

/-- Whether what is shown of the structure that a blocked task waits for is too long. -/
def awaitsLong (r : Registry) (t : Task) : Bool :=
  match t.interruption with
  | some ⟨_, p, _, none⟩ => match p with
    | .list _ | .tuple _ | .keyed .. => r.showsLong p
    | _ => false
  | _ => false

/-- Whether the tick of a task, or the value that it has or is about to get, is too long. -/
def endsLong (r : Registry) (t : Task) : Bool :=
  t.wait.hasLong ||
    if t.done then t.result.hasLong
    else match t.interruption with
      | some ⟨_, _, _, some answer⟩ => r.showsLong answer
      | _ => false

end Registry

/-- Name, id and wait state in columns. -/
def headerLine (id : Nat) (name : String) (wait : Wait) : String :=
  padRight 42 (padRight 20 name ++ "id: " ++ padRight 2 (toString id) ++ " wait: " ++ wait.render)

def Task.header (t : Task) : String := headerLine t.id t.name t.wait

def idList (ids : List Nat) : String := ",".intercalate (ids.map toString)

def flagLiteral (b : Bool) : String := if b then "True" else "False"

/-- A task with all its plain fields. -/
def Task.literal (t : Task) : String :=
  "Task(id=" ++ toString t.id ++ ", name=" ++ quoted t.name ++ ", wait=" ++
    (Value.ofWait t.wait).repr ++ ", parent_id=" ++
    (match t.parent with | some p => toString p | none => "None") ++
    ", detached=" ++ flagLiteral t.detached ++ ", coroutine=" ++
    (if t.coroutine.isSome then "<Coroutine>" else "None") ++
    ", is_cancelled=" ++ flagLiteral t.cancelled ++ ", is_running=" ++ flagLiteral t.running ++
    ", is_done=" ++ flagLiteral t.done ++ ", abandoned=" ++ flagLiteral t.abandoned ++ ")"

namespace Registry

mutual

/-- The literal of a pending structure. -/
def literal (r : Registry) : Pending → String
  | .task id => match r.get? id with
    | some t => t.literal
    | none => "None"
  | .completed v => "Completed(value=" ++ v.repr ++ ")"
  | .returned v => "Done(value=" ++ v.repr ++ ")"
  | .failed e => "Failed(error=" ++ e.literal ++ ")"
  | .value v => v.repr
  | .list ps => listLiteral (r.literals ps)
  | .tuple ps => tupleLiteral (r.literals ps)
  | .keyed frozen es => dictLiteral frozen (r.entryLiterals es)

def literals (r : Registry) : List Pending → List String
  | [] => []
  | p :: ps => r.literal p :: r.literals ps

def entryLiterals (r : Registry) : List (Value × Pending) → List (String × String)
  | [] => []
  | (k, p) :: es => (k.repr, r.literal p) :: r.entryLiterals es

end

/-- The lines of a structure between its brackets, `level` levels deep. -/
def bracketed (opening closing : String) (level : Nat) (lines : List String) : String :=
  opening ++ "\n" ++ ",\n".intercalate lines ++ "\n" ++ String.ofList
    (List.replicate (level * 2) ' ')
    ++ closing

mutual

/-- A structure on lines of its own, two levels deep, and whether no task in it is awaited. -/
def renderPending (r : Registry) (level : Nat) : Pending → Bool × String
  | .task id => (false, "TASK " ++ match r.get? id with
    | some t => t.header
    | none => "")
  | .completed v => (true, "Resolved (" ++ v.repr ++ ")")
  | .list ps =>
    if level > 1 then (true, r.literal (.list ps))
    else
      let items := r.renderItems level ps
      (items.all (·.1), bracketed "[" "]" level (items.map (·.2)))
  | .tuple ps =>
    if level > 1 then (true, r.literal (.tuple ps))
    else
      let items := r.renderItems level ps
      (items.all (·.1), bracketed "[" "]" level (items.map (·.2)))
  | .keyed frozen es =>
    if level > 1 then (true, r.literal (.keyed frozen es))
    else
      let items := r.renderEntries level es
      (items.all (·.1), bracketed "\x7b" "\x7d" level (items.map (·.2)))
  | p => (true, r.literal p)

def renderItems (r : Registry) (level : Nat) : List Pending → List (Bool × String)
  | [] => []
  | p :: ps =>
    let (known, text) := r.renderPending (level + 1) p
    (known, String.ofList (List.replicate ((level + 1) * 2) ' ') ++ text) :: r.renderItems level ps

def renderEntries (r : Registry) (level : Nat) : List (Value × Pending) → List (Bool × String)
  | [] => []
  | (k, p) :: es =>
    let (known, text) := r.renderPending (level + 1) p
    (known, String.ofList (List.replicate ((level + 1) * 2) ' ') ++ k.plain ++ ": " ++ text) ::
      r.renderEntries level es

end

/-- What is known of the structure that a blocked task waits for, while some of it is missing. -/
def partialValue? (r : Registry) (t : Task) : Option String :=
  match t.interruption with
  | some ⟨_, p, _, none⟩ =>
    match p with
    | .list _ | .tuple _ | .keyed .. =>
      let (known, text) := r.renderPending 0 p
      if known then none else some text
    | _ => none
  | _ => none

def dumpEntry (r : Registry) (pending : List Task) (t : Task) : DumpEntry :=
  ⟨t.id, t.name, t.wait, t.dependencies pending, r.partialValue? t⟩

/-- Whether a report on the pending tasks has to show a number that is too long. -/
def waitsLong (r : Registry) : Bool := r.pendingTasks.any r.awaitsLong

/-- All pending tasks under a header. -/
def dump (r : Registry) (header : String) : Except Refusal TaskDump := do
  checkWritable r.waitsLong
  let pending := r.pendingTasks
  return ⟨header, pending.map (r.dumpEntry pending)⟩

end Registry

def DumpEntry.render (e : DumpEntry) : String :=
  let line := headerLine e.id e.name e.wait ++ " Dependencies: [" ++ idList e.dependencies ++ "]"
  match e.partialValue with
  | some text => line ++ " Partially resolved value:\n" ++ text
  | none => line

def TaskDump.render (d : TaskDump) : String :=
  "\n".intercalate ((d.header ++ toString d.entries.length ++
    " tasks did not finish. Remaining tasks:") :: "" :: d.entries.map (·.render))

/-- A line a task: its header and its dependencies. -/
def renderTaskTree (tasks : List Task) : Except Refusal String := do
  checkWritable (tasks.any (·.wait.hasLong))
  return "\n".intercalate (tasks.map fun t =>
    t.header ++ " Dependencies: [" ++ idList (t.dependencies tasks) ++ "]")

namespace Registry

/-- A task and the value it has or is about to get. -/
def renderTask (r : Registry) (t : Task) : String :=
  t.header ++
    if t.done then "value: " ++ t.result.repr
    else match t.interruption with
      | some ⟨_, _, _, some answer⟩ => "value: " ++ r.literal answer
      | _ => ""

/-- A line a task, with its value. -/
def renderTasks (r : Registry) (tasks : List Task) : Except Refusal String := do
  checkWritable (tasks.any r.endsLong)
  return "\n".intercalate (tasks.map r.renderTask)

/-- The tasks with their children and what they still miss. -/
def renderPendingTasks (r : Registry) (tasks : List Task) : Except Refusal String := do
  checkWritable (tasks.any fun t => t.wait.hasLong || r.awaitsLong t)
  return "\n".intercalate (tasks.map fun t =>
    let line := t.header ++ " Children: [" ++ idList t.children ++ "]"
    match r.partialValue? t with
    | some text => line ++ " Partially resolved value:\n" ++ text
    | none => line ++ " (pending)")

end Registry

end Rehearsal
