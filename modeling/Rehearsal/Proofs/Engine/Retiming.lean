import Rehearsal.Proofs.Engine.Ticking
import Rehearsal.Proofs.Task.Retiming

/-!
# The retiming scheduler

`Config.stepRetimed` is the step of a scheduler that puts `f n` for the tick `n` of every task it
makes. `Config.Retimed` says that two configurations are the same but for the wait states of their
tasks, and for the texts that show them. What is done to a single machine, up to the interpretation
of an effect, keeps this for any `f`: ticks are not compared there, and a task is made with its wait
retimed. Only reports could tell the difference, by ticks too long to be written.
-/
namespace Rehearsal

variable {σ : Type}

/-! ### The retiming scheduler -/

def Machine.retimeFrom (f : Nat → Nat) (first : Nat) (m : Machine σ) : Machine σ :=
  { m with registry := m.registry.retimeFrom f first }

def Outcome.retimeFrom (f : Nat → Nat) (first : Nat) (r : Outcome σ) : Outcome σ :=
  { r with machine := r.machine.retimeFrom f first }

namespace Config

def retimeFrom (f : Nat → Nat) (first : Nat) (c : Config σ) : Config σ :=
  { c with machine := c.machine.retimeFrom f first }

/-- One step, in which a task is made with its wait retimed. No step looks at the wait of a task
that it makes itself, and to retime that task afterwards is to make it so
(`Registry.create_retimeFrom`). -/
def stepRetimed (f : Nat → Nat) (w : World σ) (o : RunOptions) (c : Config σ) : Config σ :=
  (c.step w o).retimeFrom f c.machine.registry.size

/-- At most `fuel` such steps, stopping at a final configuration. -/
def runRetimed (f : Nat → Nat) (w : World σ) (o : RunOptions) : Nat → Config σ → Config σ
  | 0, c => c
  | fuel + 1, c => if c.isFinal then c else runRetimed f w o fuel (c.stepRetimed f w o)

end Config

/-! ### Code that does not look at wait states -/

/-- The view with the wait states taken out. -/
def View.untimed (v : View) : View :=
  { v with status? := fun id => (v.status? id).map fun s => { s with wait := .now } }

/-- Generators, functions, planner and handlers do the same whatever the wait states are. -/
structure World.Timeless (w : World σ) : Prop where
  resume : ∀ {v v' : View}, v.untimed = v'.untimed → w.resume v = w.resume v'
  plan : ∀ {v v' : View}, v.untimed = v'.untimed → w.plan v = w.plan v'
  invoke : ∀ {v v' : View}, v.untimed = v'.untimed → w.invoke v = w.invoke v'
  handler : ∀ {e h}, w.handler? e = some h → ∀ {v v' : View}, v.untimed = v'.untimed → h v = h v'

/-! ### The same but for wait states -/

namespace Registry

def unblockingLine (running tree : String) : String :=
  "-- UNBLOCKING:\n" ++ running ++ "\n-- TREE:\n" ++ tree ++ "\n"

def bubblingLine (bubbled tree : String) : String :=
  "-- TASKS TO BUBBLE:\n" ++ bubbled ++ "\n-- TREE:\n" ++ tree ++ "\n"

def interruptLine (r : Registry) (t : Task) : String :=
  "-- INTERRUPT:\n" ++ t.header ++ " kind: " ++
    (match t.interruption with
      | some i => i.kind.name
      | none => "None") ++
    " dependencies: [" ++ idList (t.dependencies r.pendingTasks) ++ "]\n"

/-- Two lines of diagnostics that are the same, or show the same tasks, the second with their waits
retimed. -/
inductive Rewritten (f : Nat → Nat) : String → String → Prop
  | same (line : String) : Rewritten f line line
  | unblocking {r : Registry} {batch : List Task} {running running' tree tree' : String}
    (shown : r.renderTasks batch = .ok running)
    (shown' : (r.retime f).renderTasks (batch.map (·.retime f)) = .ok running')
    (pending : renderTaskTree r.pendingTasks = .ok tree)
    (pending' : renderTaskTree (r.retime f).pendingTasks = .ok tree') :
    Rewritten f (unblockingLine running tree) (unblockingLine running' tree')
  | bubbling {r : Registry} {finished : List Task} {bubbled bubbled' tree tree' : String}
    (shown : r.renderTasks finished = .ok bubbled)
    (shown' : (r.retime f).renderTasks (finished.map (·.retime f)) = .ok bubbled')
    (pending : r.renderPendingTasks r.pendingTasks = .ok tree)
    (pending' : (r.retime f).renderPendingTasks (r.retime f).pendingTasks = .ok tree') :
    Rewritten f (bubblingLine bubbled tree) (bubblingLine bubbled' tree')
  | interrupt (r : Registry) (t : Task) :
    Rewritten f (r.interruptLine t) ((r.retime f).interruptLine (t.retime f))

end Registry

/-- Two failures that are the same, or report the same pending tasks, the second with their waits
retimed. -/
inductive Failure.Retimed (f : Nat → Nat) : Failure → Failure → Prop
  | same (x : Failure) : Retimed f x x
  | stopped {r : Registry} {header : String} {dump dump' : TaskDump} (steps : Nat)
    (reason : StopReason) (dumped : r.dump header = .ok dump)
    (dumped' : (r.retime f).dump header = .ok dump') (alike : dump.Retimed f dump') :
    Retimed f (.harness (.stopped dump steps reason)) (.harness (.stopped dump' steps reason))

inductive Control.Retimed (f : Nat → Nat) : Control → Control → Prop
  | same (control : Control) : Retimed f control control
  | abort {x x' : Failure} : x.Retimed f x' → Retimed f (.abort x) (.abort x')

/-- As long as the run is not given up the same is going on. -/
theorem Control.Retimed.eq {f : Nat → Nat} {control control' : Control}
    (h : control.Retimed f control')
    (ha : ∀ x, control ≠ .abort x) : control' = control := by
  cases h with
  | same => rfl
  | @abort x _ _ => exact absurd rfl (ha x)

/-- The same run so far: the same tasks but for their waits, the same step count, lines of
diagnostics, exception being handled, and state of the world. -/
structure Machine.Retimed (f : Nat → Nat) (m m' : Machine σ) : Prop where
  registry : m'.registry = m.registry.retime f
  steps : m'.steps = m.steps
  trace : List.Forall₂ (Registry.Rewritten f) m.trace.toList m'.trace.toList
  handled : m'.handled = m.handled
  outer : m'.outer = m.outer

/-- The diagnostics are written in both runs, or refused in both. -/
inductive Machine.Noted (f : Nat → Nat) :
    Except Failure (Machine σ) → Except Failure (Machine σ) → Prop
  | written {m m' : Machine σ} : m.Retimed f m' → Noted f (.ok m) (.ok m')
  | refused (x : Failure) : Noted f (.error x) (.error x)

structure Outcome.Retimed (f : Nat → Nat) (r r' : Outcome σ) : Prop where
  machine : r.machine.Retimed f r'.machine
  frames : r'.frames = r.frames
  control : r.control.Retimed f r'.control

/-- The same is going on in the same run so far. -/
structure Config.Retimed (f : Nat → Nat) (c c' : Config σ) : Prop where
  machine : c.machine.Retimed f c'.machine
  stack : c'.stack = c.stack
  control : c.control.Retimed f c'.control

variable {f : Nat → Nat}

/-! ### What is traced, and what is settled -/

/-- Which tasks are traced does not depend on their waits. -/
theorem Selector.applies_retime (s : Selector) (tasks : List Task) :
    s.applies (tasks.map (·.retime f)) = s.applies tasks := by
  have hmeets : ∀ k, meets k ∘ (·.retime f) = meets k := fun k => by cases k <;> rfl
  unfold applies
  split
  · rfl
  · rfl
  · rfl
  · rw [List.any_map, hmeets]
  · simp only [List.any_map, hmeets]

theorem Registry.settle_retime (r : Registry) (t : Nat) (i : Interruption) (finished : List Nat) :
    (r.retime f).settle t i finished =
      (r.settle t i finished).map fun settled =>
        (settled.1, settled.2.1, settled.2.2.retime f) := by
  cases hk : i.kind with
  | children =>
    simp only [settle, hk, get?_retime]
    cases r.get? t with
    | none => rfl
    | some task =>
      dsimp only [Option.map_some, Task.retime]
      split <;> rfl
  | generator =>
    simp only [settle, hk, get?_retime]
    split
    · split
      · rename_i dependency _ _
        cases r.get? dependency <;> rfl
      · rfl
    · rfl
    · rfl
  | join =>
    simp only [settle, hk, settleFinished_retime]
    split
    · split <;> rfl
    · rfl
  | all =>
    simp only [settle, hk, settleFinished_retime]
    split
    · split <;> rfl
    · rfl
  | race =>
    simp only [settle, hk]
    split
    · rfl
    · rename_i winner _
      have hfold : ∀ losers : List Nat,
          losers.foldl (fun r l => if r.isDone l then r else r.letGo l) (r.retime f) =
            (losers.foldl (fun r l => if r.isDone l then r else r.letGo l) r).retime f := by
        refine fun losers => List.foldl_hom (Registry.retime f) fun r l => ?_
        rw [isDone_retime, letGo_retime]
        split <;> rfl
      rw [hfold, get?_retime]
      generalize List.foldl _ r _ = r'
      cases r'.get? winner <;> rfl

/-! ### What a machine does -/

namespace Machine.Retimed

variable {m m' : Machine σ} {w : World σ} {o : RunOptions}

theorem get? (h : m.Retimed f m') (t : Nat) : m'.get? t = (m.get? t).map (·.retime f) := by
  rw [Machine.get?, h.registry, Registry.get?_retime]
  rfl

theorem size (h : m.Retimed f m') : m'.registry.size = m.registry.size := by
  rw [h.registry, Registry.size_retime]

theorem view (h : m.Retimed f m') : m'.view.untimed = m.view.untimed := by
  unfold View.untimed Machine.view
  dsimp only
  rw [h.steps, h.handled]
  congr 1
  funext t
  rw [h.get?]
  cases m.get? t <;> rfl

theorem exception (h : m.Retimed f m') (kind : ErrorClass) (args : List Value) :
    m'.exception kind args = m.exception kind args := by
  rw [Machine.exception, h.steps]
  rfl

theorem unknownTask (h : m.Retimed f m') (id : Nat) : m'.unknownTask id = m.unknownTask id :=
  h.exception _ _

theorem unwritten (h : m.Retimed f m') (refusal : Refusal) :
    m'.unwritten refusal = m.unwritten refusal := by
  rw [Machine.unwritten, Machine.unwritten, h.steps]

/-- The report of a run that stops shows the same tasks. -/
theorem stopped (h : m.Retimed f m') (brief : m.registry.Brief f) (header : String)
    (reason : StopReason) : (m.stopped header reason).Retimed f (m'.stopped header reason) := by
  unfold Machine.stopped
  rw [h.registry, h.steps]
  rcases brief.dump_retime header with
    ⟨dump, dump', heq, heq', alike⟩ | ⟨refusal, heq, heq'⟩
  · rw [heq, heq']
    exact .stopped _ _ heq heq' alike
  · rw [heq, heq']
    dsimp only
    rw [h.unwritten]
    exact .same _

theorem nameOf (h : m.Retimed f m') (t : Nat) : m'.nameOf t = m.nameOf t := by
  unfold Machine.nameOf
  rw [h.get?]
  cases m.get? t <;> rfl

theorem withRegistry (h : m.Retimed f m') {r r' : Registry} (hr : r' = r.retime f) :
    ({ m with registry := r } : Machine σ).Retimed f { m' with registry := r' } :=
  ⟨hr, h.steps, h.trace, h.handled, h.outer⟩

theorem withHandled (h : m.Retimed f m') (e : Option Exn) :
    ({ m with handled := e } : Machine σ).Retimed f { m' with handled := e } :=
  ⟨h.registry, h.steps, h.trace, rfl, h.outer⟩

theorem withOuter (h : m.Retimed f m') (s : σ) :
    ({ m with outer := s } : Machine σ).Retimed f { m' with outer := s } :=
  ⟨h.registry, h.steps, h.trace, h.handled, rfl⟩

theorem modify (h : m.Retimed f m') (t : Nat) {g : Task → Task}
    (hg : ∀ u : Task, g (u.retime f) = (g u).retime f) : (m.modify t g).Retimed f (m'.modify t g) :=
  h.withRegistry (by rw [h.registry, Registry.modify_retime _ t hg])

theorem note (h : m.Retimed f m') {line line' : String} (hl : Registry.Rewritten f line line') :
    (m.note line).Retimed f (m'.note line') := by
  refine ⟨h.registry, h.steps, ?_, h.handled, h.outer⟩
  rw [Machine.note, Machine.note, Array.toList_push, Array.toList_push]
  exact List.rel_append h.trace (.cons hl .nil)

theorem noteInterrupt (h : m.Retimed f m') (t : Task) :
    (m.noteInterrupt o t).Retimed f (m'.noteInterrupt o (t.retime f)) := by
  unfold Machine.noteInterrupt
  rw [show [t.retime f] = [t].map (·.retime f) from rfl, Selector.applies_retime, h.registry]
  split
  · exact h.note (.interrupt m.registry t)
  · exact h

theorem noteUnblocking (h : m.Retimed f m') (brief : m.registry.Brief f) {batch : List Task}
    (hbatch : ∀ t ∈ batch, t.Brief f) :
    Noted f (m.noteUnblocking o batch) (m'.noteUnblocking o (batch.map (·.retime f))) := by
  obtain ⟨tree, tree', htree, htree'⟩ :=
    Registry.renderTaskTree_retime fun t ht => brief.of_mem_pendingTasks ht
  rw [← show (m.registry.retime f).pendingTasks = _ from m.registry.pendingTasks_retime] at htree'
  unfold Machine.noteUnblocking
  rw [Selector.applies_retime, h.registry]
  split
  · rcases brief.renderTasks_retime hbatch with
      ⟨running, running', heq, heq'⟩ | ⟨refusal, heq, heq'⟩
    · rw [heq, heq', htree, htree']
      exact .written (h.note (.unblocking heq heq' htree htree'))
    · rw [heq, heq']
      dsimp only
      rw [h.unwritten]
      exact .refused _
  · exact .written h

theorem noteBubbling (h : m.Retimed f m') (brief : m.registry.Brief f) {finished : List Task}
    (hfinished : ∀ t ∈ finished, t.Brief f) :
    Noted f (m.noteBubbling o finished) (m'.noteBubbling o (finished.map (·.retime f))) := by
  have hpending : (m.registry.retime f).pendingTasks = m.registry.pendingTasks.map (·.retime f) :=
    m.registry.pendingTasks_retime
  unfold Machine.noteBubbling
  rw [Selector.applies_retime, h.registry]
  split
  · rcases brief.renderTasks_retime hfinished with
      ⟨bubbled, bubbled', heq, heq'⟩ | ⟨refusal, heq, heq'⟩
    · rcases brief.renderPendingTasks_retime fun t ht => brief.of_mem_pendingTasks ht with
        ⟨tree, tree', htree, htree'⟩ | ⟨refusal, htree, htree'⟩ <;>
        rw [← hpending] at htree'
      · rw [heq, heq', htree, htree']
        exact .written (h.note (.bubbling heq heq' htree htree'))
      · rw [heq, heq', htree, htree']
        dsimp only
        rw [h.unwritten]
        exact .refused _
    · rw [heq, heq']
      dsimp only
      rw [h.unwritten]
      exact .refused _
  · exact .written h

theorem suspend (h : m.Retimed f m') (t : Nat) (i : Interruption) :
    (m.suspend o t i).Retimed f (m'.suspend o t i) := by
  have hblock := h.modify t (g := (·.block i)) fun _ => rfl
  unfold Machine.suspend
  dsimp only
  rw [hblock.get?]
  cases (m.modify t fun task => task.block i).get? t with
  | none => exact hblock
  | some task => exact hblock.noteInterrupt task

theorem holdForChildren (h : m.Retimed f m') (t : Nat) (held : Pending) :
    (m'.holdForChildren o t held).1 = (m.holdForChildren o t held).1 ∧
      (m.holdForChildren o t held).2.Retimed f (m'.holdForChildren o t held).2 := by
  have hlive : ∀ u : Task, (u.retime f).children.filter (fun c => !m'.registry.isDone c) =
      u.children.filter fun c => !m.registry.isDone c := by
    intro u
    rw [h.registry]
    simp only [Registry.isDone_retime]
    rfl
  unfold Machine.holdForChildren
  rw [h.get?]
  cases m.get? t with
  | none => exact ⟨rfl, h⟩
  | some u =>
    dsimp only [Option.map_some]
    rw [hlive]
    generalize u.children.filter (fun c => !m.registry.isDone c) = live
    have hrest := h.modify t (g := fun u => { u with children := live }) fun _ => rfl
    split
    · exact ⟨rfl, hrest⟩
    · exact ⟨rfl,
        (hrest.modify t (g := fun u => { u with coroutine := none }) fun _ => rfl).suspend t _⟩

theorem finalize (h : m.Retimed f m') (t : Nat) (v : Value) :
    (m.finalize t v).Retimed f (m'.finalize t v) := by
  have hfinish := h.modify t (g := (·.finish v)) fun _ => rfl
  refine hfinish.withRegistry ?_
  rw [hfinish.registry, Registry.retire_retime]

theorem wrapUp (h : m.Retimed f m') (t : Nat) (held : Pending) (v : Value) :
    (m.wrapUp o t held v).Retimed f (m'.wrapUp o t held v) := by
  obtain ⟨hheld, hmachine⟩ := h.holdForChildren (o := o) t held
  unfold Machine.wrapUp
  generalize m.holdForChildren o t held = outcome at hheld hmachine
  generalize m'.holdForChildren o t held = outcome' at hheld hmachine
  obtain ⟨b, m₁⟩ := outcome
  obtain ⟨b', m₁'⟩ := outcome'
  obtain rfl : b' = b := hheld
  cases b' with
  | true => exact hmachine
  | false => exact finalize hmachine t v

/-- A task fails in both runs or in neither. -/
theorem fail (h : m.Retimed f m') (t : Nat) (e : Exn) :
    Option.Rel (Machine.Retimed f) (m.fail o t e) (m'.fail o t e) := by
  cases ht : m.get? t with
  | none =>
    unfold Machine.fail
    rw [h.get?, ht]
    exact .none
  | some u =>
    have ht' : m'.get? t = some (u.retime f) := by rw [h.get?, ht]; rfl
    cases he : u.error with
    | some e' =>
      unfold Machine.fail
      rw [ht, ht']
      simp only [he, show (u.retime f).error = _ from he, Option.isSome_some, if_true]
      exact .none
    | none =>
      have hcondemn : (m.condemn t u.children e).Retimed f (m'.condemn t u.children e) := by
        have herror := h.modify t (g := fun u => { u with error := some e }) fun _ => rfl
        refine herror.withRegistry ?_
        rw [show m'.registry.modify t _ = _ from herror.registry, Registry.cancelAll_retime]
        rfl
      rw [fail_eq o ht he, fail_eq o ht' he]
      exact .some (hcondemn.wrapUp t _ _)

theorem produce (h : m.Retimed f m') (hw : w.Timeless) (plan : CallPlan) (call : Call) :
    (m'.produce w plan call).1 = (m.produce w plan call).1 ∧
      (m.produce w plan call).2.Retimed f (m'.produce w plan call).2 := by
  unfold Machine.produce
  split
  · exact ⟨rfl, h⟩
  · split
    · rw [hw.invoke h.view, h.outer]
      exact ⟨rfl, h.withOuter _⟩
    · exact ⟨rfl, h⟩

/-- A task is made with its wait retimed. -/
theorem create (h : m.Retimed f m') (name : String) (wait : Wait)
    (parent : Option Nat) (detached : Bool)
    (entry : Option Entry) :
    (m'.create name wait parent detached entry).2 = (m.create name wait parent detached entry).2 ∧
      (m.create name wait parent detached entry).1.Retimed f
        ((m'.create name wait parent detached entry).1.retimeFrom f m'.registry.size) := by
  rw [Machine.create_eq, Machine.create_eq]
  refine ⟨h.size, h.withRegistry ?_⟩
  dsimp only
  rw [Registry.create_retimeFrom, h.registry, Registry.create_retime]

/-- Where no task is made nothing is left to be retimed. -/
theorem settled (h : m.Retimed f m') {first : Nat} (hsize : m'.registry.size ≤ first) :
    m.Retimed f (m'.retimeFrom f first) :=
  h.withRegistry ((Registry.retimeFrom_of_le _ hsize).trans h.registry)

/-- The steps are counted alike, and refused alike past the ceiling. -/
theorem tick (h : m.Retimed f m') (brief : m.registry.Brief f) :
    (m.tick o).2.Retimed f (m'.tick o).2 ∧
    ((m.tick o).1 = .ok () ∧ (m'.tick o).1 = .ok () ∨
      ∃ x x', (m.tick o).1 = .error x ∧ (m'.tick o).1 = .error x' ∧ x.Retimed f x') := by
  have hcounted : ({ m with steps := m.steps + 1 } : Machine σ).Retimed f
      { m' with steps := m'.steps + 1 } :=
    ⟨h.registry, congrArg (· + 1) h.steps, h.trace, h.handled, h.outer⟩
  unfold Machine.tick
  dsimp only
  by_cases hlimit : m.steps + 1 > o.stepLimit
  · rw [if_pos hlimit, if_pos (h.steps ▸ hlimit)]
    exact ⟨hcounted, Or.inr ⟨_, _, rfl, rfl, hcounted.stopped brief ..⟩⟩
  · rw [if_neg hlimit, if_neg (h.steps ▸ hlimit)]
    exact ⟨hcounted, Or.inl ⟨rfl, rfl⟩⟩

end Machine.Retimed

/-! ### Interpreting an effect -/

namespace Outcome.Retimed

variable {m m' : Machine σ} {r r' : Outcome σ}

theorem answer (h : m.Retimed f m') (a : Answer) : (Outcome.answer m a).Retimed f (.answer m' a) :=
  ⟨h, rfl, .same _⟩

theorem advance (h : m.Retimed f m') (v : Value) :
    (Outcome.advance m v).Retimed f (.advance m' v) :=
  ⟨h, rfl, .same _⟩

theorem failure (h : m.Retimed f m') (x : Failure) :
    (Outcome.failure m x).Retimed f (.failure m' x) :=
  ⟨h, rfl, .same _⟩

theorem failed (h : m.Retimed f m') {x x' : Failure} (hx : x.Retimed f x') :
    (Outcome.failure m x).Retimed f (.failure m' x') := by
  cases hx with
  | same => exact failure h x
  | stopped steps reason dumped dumped' alike =>
    exact ⟨h, rfl, .abort (.stopped steps reason dumped dumped' alike)⟩

theorem raise (h : m.Retimed f m') (e : Exn) : (Outcome.raise m e).Retimed f (.raise m' e) :=
  failure h (.exn e)

theorem abort (h : m.Retimed f m') (x : HarnessError) :
    (Outcome.abort m x).Retimed f (.abort m' x) :=
  failure h (.harness x)

theorem report (h : m.Retimed f m') (v : Value) (x : HarnessError) :
    (Outcome.report m v x).Retimed f (.report m' v x) := by
  unfold Outcome.report
  cases v.checkLong with
  | error refusal =>
    dsimp only
    rw [h.unwritten]
    exact failure h _
  | ok _ => exact failure h _

theorem settled (h : r.Retimed f r') {first : Nat} (hsize : r'.machine.registry.size ≤ first) :
    r.Retimed f (r'.retimeFrom f first) :=
  ⟨h.machine.settled hsize, h.frames, h.control⟩

end Outcome.Retimed

/-- Leave for everything but making tasks. -/
def Licence.barren :
    Licence := ⟨fun _ => True, fun _ => True, fun _ _ => True, fun _ => True, False⟩

namespace Machine.Retimed

open Outcome.Retimed

variable {m m' : Machine σ} {w : World σ} {o : RunOptions}

theorem produced (h : m.Retimed f m') (v : Value) : (m.produced v).Retimed f (m'.produced v) := by
  unfold Machine.produced
  split
  · exact answer h _
  · exact advance h _

theorem interpretCall (h : m.Retimed f m') (hw : w.Timeless) (t : Nat) (call : Call) :
    (m.interpretCall w t call).Retimed f
      ((m'.interpretCall w t call).retimeFrom f m'.registry.size) := by
  unfold Machine.interpretCall
  rw [hw.plan h.view, h.outer]
  generalize w.plan m.view call false m.outer = planned
  obtain ⟨planned, s⟩ := planned
  have hs := h.withOuter s
  cases planned with
  | error x => exact (failure hs x).settled (Nat.le_refl _)
  | ok plan =>
    dsimp only
    split
    · obtain ⟨hmade, hmachine⟩ := hs.produce hw plan call
      have hreg : (Machine.produce w { m' with outer := s } plan call).2.registry = m'.registry :=
        registry_produce ..
      generalize Machine.produce w { m with outer := s } plan call = made at hmade hmachine
      generalize Machine.produce w { m' with outer := s } plan call = made' at hmade hmachine hreg
      obtain ⟨value, m₁⟩ := made
      obtain ⟨value', m₁'⟩ := made'
      obtain rfl : value' = value := hmade
      have hsize : m₁'.registry.size ≤ m'.registry.size := by rw [show m₁'.registry = _ from hreg]
      cases value' with
      | error e => exact (raise hmachine e).settled hsize
      | ok v =>
        refine (produced hmachine v).settled ?_
        rw [show (m₁'.produced v).machine = m₁' from by unfold Machine.produced; split <;> rfl]
        exact hsize
    · obtain ⟨hchild, hmade⟩ :=
        hs.create call.name plan.wait (some t) false (some (.planned plan call))
      refine ⟨hmade, rfl, ?_⟩
      dsimp only [Outcome.answer]
      rw [hchild]
      exact .same _

theorem interpretFork (h : m.Retimed f m') (hw : w.Timeless) (t : Nat)
    (call : Call) (detached : Bool) :
    (m.interpretFork w t call detached).Retimed f
      ((m'.interpretFork w t call detached).retimeFrom f m'.registry.size) := by
  unfold Machine.interpretFork
  rw [hw.plan h.view, h.outer]
  generalize w.plan m.view call true m.outer = planned
  obtain ⟨planned, s⟩ := planned
  have hs := h.withOuter s
  cases planned with
  | error x => exact (failure hs x).settled (Nat.le_refl _)
  | ok plan =>
    dsimp only
    rw [h.registry, Registry.coroutineOwner_retime, ← h.registry]
    obtain ⟨hchild, hmade⟩ := hs.create call.name plan.wait
      (if detached then none else some (m.registry.coroutineOwner t)) detached
        (some (.planned plan call))
    rw [hchild]
    split
    · exact ⟨hmade, rfl, .same _⟩
    · exact ⟨hmade, rfl, .same _⟩

theorem interpretDelay (h : m.Retimed f m') (t ticks : Nat) :
    (m.interpretDelay t ticks).Retimed f
      ((m'.interpretDelay t ticks).retimeFrom f m'.registry.size) := by
  obtain ⟨hchild, hmade⟩ := h.create "delay" (.tick ticks) (some t) false none
  unfold Machine.interpretDelay
  dsimp only
  rw [hchild]
  exact ⟨hmade, rfl, .same _⟩

theorem interpretExternal (h : m.Retimed f m') (hw : w.Timeless) (t : Nat) (e : Effect)
    (inComposite : Bool) :
    (m.interpretExternal w t e inComposite).Retimed f
      ((m'.interpretExternal w t e inComposite).retimeFrom f m'.registry.size) := by
  unfold Machine.interpretExternal
  cases he : w.handler? e with
  | none =>
    rw [h.steps]
    exact (abort h _).settled (Nat.le_refl _)
  | some handler =>
    have hreaction : handler m'.view ⟨⟨t, m'.nameOf t, true⟩, inComposite, m'.steps⟩ m'.outer =
        handler m.view ⟨⟨t, m.nameOf t, true⟩, inComposite, m.steps⟩ m.outer := by
      rw [hw.handler he h.view, h.nameOf, h.steps, h.outer]
    dsimp only
    rw [hreaction]
    generalize handler m.view ⟨⟨t, m.nameOf t, true⟩, inComposite, m.steps⟩ m.outer = reacted
    obtain ⟨reaction, s⟩ := reacted
    have hs := h.withOuter s
    cases reaction with
    | error x => exact (failure hs x).settled (Nat.le_refl _)
    | ok reaction =>
      cases reaction with
      | advance v => exact (advance hs v).settled (Nat.le_refl _)
      | invalid v => exact (report hs _ _).settled (Nat.le_refl _)
      | defer v wait name =>
        obtain ⟨hchild, hmade⟩ :=
          hs.create (deferredName name) wait (some t) false (some (.constant v))
        dsimp only
        rw [hchild]
        exact ⟨hmade, rfl, .same _⟩

theorem unknownTarget? (h : m.Retimed f m') (targets : Targets) :
    m'.unknownTarget? targets = m.unknownTarget? targets := by
  have hknown : (fun k : Marker => (m'.get? k.id).isNone) = fun k => (m.get? k.id).isNone := by
    funext k
    rw [h.get?, Option.isNone_map]
  unfold Machine.unknownTarget?
  rw [hknown]

theorem interpretJoin (h : m.Retimed f m') (targets : Targets) :
    (m.interpretJoin targets).Retimed f (m'.interpretJoin targets) := by
  unfold Machine.interpretJoin
  rw [h.unknownTarget?]
  split
  · rename_i id _
    rw [h.unknownTask]
    exact raise h _
  · dsimp only
    rw [h.registry, Registry.settleFinished_retime]
    split
    · exact advance h _
    · exact answer h _

theorem interpretCancel (h : m.Retimed f m') (targets : Targets) :
    (m.interpretCancel targets).Retimed f (m'.interpretCancel targets) := by
  unfold Machine.interpretCancel
  rw [h.unknownTarget?]
  split
  · rename_i id _
    rw [h.unknownTask]
    exact raise h _
  · refine advance (h.withRegistry ?_) _
    rw [h.registry, Registry.cancelAll_retime]

theorem interpretCancelSelf (h : m.Retimed f m') (t : Nat) :
    (m.interpretCancelSelf t).Retimed f (m'.interpretCancelSelf t) := by
  refine advance (h.withRegistry ?_) _
  rw [h.registry, Registry.coroutineOwner_retime, Registry.cancelTree_retime]

theorem interpretCancelled (h : m.Retimed f m') (t : Nat) :
    (m.interpretCancelled t).Retimed f (m'.interpretCancelled t) := by
  unfold Machine.interpretCancelled
  rw [h.get?, show m'.registry.coroutineOwner t = m.registry.coroutineOwner t by
    rw [h.registry, Registry.coroutineOwner_retime]]
  cases m.get? (m.registry.coroutineOwner t) with
  | none => exact advance h _
  | some u => exact advance h _

theorem concludeComposite (h : m.Retimed f m') (c : Composite) :
    (m.concludeComposite c).Retimed f (m'.concludeComposite c) := by
  have herror : ∀ ps, m'.firstError? ps = m.firstError? ps := by
    intro ps
    unfold Machine.firstError?
    congr 1
    funext p
    rw [h.get?]
    cases m.get? p <;> rfl
  rw [Machine.concludeComposite_eq, Machine.concludeComposite_eq, herror]
  split
  · exact raise h _
  · dsimp only
    rw [h.registry, Registry.settleFinished_retime]
    split
    · refine advance (h.withRegistry ?_) _
      exact List.foldl_hom (Registry.retime f) Registry.letGo_retime
    · split
      · exact advance h _
      · exact answer h _

theorem continueComposite (h : m.Retimed f m') (c : Composite) :
    (m.continueComposite c).Retimed f ((m'.continueComposite c).retimeFrom f m'.registry.size) := by
  unfold Machine.continueComposite
  split
  · have hsize :=
      (m'.amends_concludeComposite (l := .barren) c fun _ _ => trivial).size_eq_of_not_makes id
    exact (h.concludeComposite c).settled (Nat.le_of_eq hsize)
  · rename_i key member rest _
    dsimp only
    generalize (if c.isRace then "race" else "all") ++ "[" ++ key.plain ++ "]" = name
    generalize Wait.tier (if c.isRace then .race else .all) = wait
    obtain ⟨hchild, hmade⟩ := h.create name wait (some c.task) false none
    rw [hchild]
    generalize (m.create name wait (some c.task) false none).2 = p
    refine ⟨?_, rfl, .same _⟩
    have hrunning := hmade.modify p (g := fun u => { u with running := true }) fun _ => rfl
    refine hrunning.withRegistry (hrunning.registry ▸ ?_)
    exact Registry.modify_retimeFrom _ _ p fun _ => rfl

theorem interpretEffect (h : m.Retimed f m') (hw : w.Timeless) (t : Nat) (e : Effect)
    (inComposite : Bool) :
    (m.interpretEffect w t e inComposite).Retimed f
      ((m'.interpretEffect w t e inComposite).retimeFrom f m'.registry.size) := by
  unfold Machine.interpretEffect
  split
  · exact h.interpretCall hw t _
  · exact h.interpretFork hw t _ _
  · rename_i targets
    exact (h.interpretJoin targets).settled
      (Nat.le_of_eq ((m'.amends_interpretJoin (l := .barren) targets).size_eq_of_not_makes id))
  · exact h.continueComposite _
  · exact h.continueComposite _
  · rename_i targets
    exact (h.interpretCancel targets).settled
      (Nat.le_of_eq ((m'.amends_interpretCancel (l := .barren) targets).size_eq_of_not_makes id))
  · exact (h.interpretCancelSelf t).settled
      (Nat.le_of_eq (Registry.cancelTree_flagged _ _ fun _ => False).size)
  · refine (h.interpretCancelled t).settled (Nat.le_of_eq ?_)
    unfold Machine.interpretCancelled
    split <;> rfl
  · exact h.interpretDelay t _
  · exact h.interpretExternal hw t _ _

/-- **An effect is interpreted in the same way.** -/
theorem interpret (h : m.Retimed f m') (brief : m.registry.Brief f) (hw : w.Timeless) (t : Nat)
    (effect : Value) (inComposite : Bool) :
    (m.interpret w o t effect inComposite).Retimed f
      ((m'.interpret w o t effect inComposite).retimeFrom f m'.registry.size) := by
  have hreg : (m'.tick o).2.registry = m'.registry := registry_tick ..
  obtain ⟨hmachine, hticked⟩ := h.tick (o := o) brief
  unfold Machine.interpret
  generalize m.tick o = ticked at hmachine hticked
  generalize m'.tick o = ticked' at hmachine hticked hreg
  obtain ⟨result, m₁⟩ := ticked
  obtain ⟨result', m₁'⟩ := ticked'
  rw [← show m₁'.registry = m'.registry from hreg]
  rcases hticked with ⟨hok, hok'⟩ | ⟨x, x', hx, hx', hretimed⟩
  · obtain rfl : result = .ok () := hok
    obtain rfl : result' = .ok () := hok'
    cases effect with
    | generator g => exact (answer hmachine _).settled (Nat.le_refl _)
    | effect e => exact interpretEffect hmachine hw t e inComposite
    | _ =>
      dsimp only
      rw [nameOf hmachine, show m₁'.steps = m₁.steps from hmachine.steps]
      exact (report hmachine _ _).settled (Nat.le_refl _)
  · obtain rfl : result = .error x := hx
    obtain rfl : result' = .error x' := hx'
    exact (Outcome.Retimed.failed hmachine hretimed).settled (Nat.le_refl _)

theorem afterFork (h : m.Retimed f m') (child : Nat) :
    (m.afterFork child).Retimed f (m'.afterFork child) := by
  unfold Machine.afterFork
  rw [h.get?, h.unknownTask]
  cases m.get? child with
  | none => exact raise h _
  | some u =>
    dsimp only [Option.map_some, Task.retime]
    split
    · split
      · exact advance h _
      · exact raise h _
    · exact advance h _

end Machine.Retimed

end Rehearsal
