import Rehearsal.Proofs.Bench.Candor
import Rehearsal.Proofs.Engine.Lockstep
import Rehearsal.Proofs.Expect.Asking
import Rehearsal.Proofs.Script.Bodies

/-!
# What the bench looks at

Planners and handlers look at a run through the functions of the script that they ask, and at the
step counter. So the bench does not see past the outlook of its script. One outlook takes in all but
wait states: to scripts that keep within it ticks matter by their order only.
-/
namespace Rehearsal

open Script

/-! ### Computations of the bench that agree -/

/-- Where the memory is within the outlook the two computations do the same, and they leave it so.
-/
structure Act.Agrees {α : Type} (o : Outlook) (x y : Act α) : Prop where
  run {s : Bench} (hs : s.memory.Within o) : x.run s = y.run s
  kept {s : Bench} (hs : s.memory.Within o) : (x.run s).2.memory.Within o

namespace Act.Agrees

variable {α β : Type} {o : Outlook}

theorem pure (a : α) : Agrees o (Pure.pure a : Act α) (Pure.pure a) := ⟨fun _ => rfl, fun hs => hs⟩

theorem throw (f : Failure) : Agrees o (MonadExcept.throw f : Act α) (MonadExcept.throw f) :=
  ⟨fun _ => rfl, fun hs => hs⟩

theorem get : Agrees o (MonadState.get : Act Bench) MonadState.get := ⟨fun _ => rfl, fun hs => hs⟩

theorem modify {f : Bench → Bench} (hf : ∀ s, (f s).memory = s.memory) :
    Agrees o (MonadState.modifyGet fun s => ((), f s) : Act Unit)
        (MonadState.modifyGet fun s => ((), f s)) :=
  ⟨fun _ => rfl, fun hs => (hf _).symm ▸ hs⟩

theorem bind {x y : Act α} {f g : α → Act β} (hx : x.Agrees o y) (hf : ∀ a, (f a).Agrees o (g a)) :
    Agrees o (x >>= f) (y >>= g) := by
  constructor
  case run =>
    intro s hs
    rw [Candid.run_bind, Candid.run_bind, ← hx.run hs]
    split
    · rename_i hrun
      have hkept := hx.kept hs
      rw [hrun] at hkept
      exact (hf _).run hkept
    · rfl
  case kept =>
    intro s hs
    have hkept := hx.kept hs
    rw [Candid.run_bind]
    split
    · rename_i hrun
      rw [hrun] at hkept
      exact (hf _).kept hkept
    · rename_i hrun
      rwa [hrun] at hkept

theorem attempt {x y : Eval α} {P : α → Prop} (h : x.Agrees o y P) :
    (Act.attempt x).Agrees o (Act.attempt y) where
  run {s} hs := by
    show (Except.ok (x.run s.memory).1, { s with memory := (x.run s.memory).2 }) =
      (Except.ok (y.run s.memory).1, { s with memory := (y.run s.memory).2 })
    rw [h.run hs]
  kept hs := h.kept hs

theorem ofScript {x y : Eval α} {P : α → Prop} (h : x.Agrees o y P) :
    (Act.ofScript x).Agrees o (Act.ofScript y) := by
  refine bind (attempt h) fun r => ?_
  cases r with
  | ok a => exact pure a
  | error e => exact throw _

end Act.Agrees

def Script.Eval.Agrees.echo (o : Outlook) : Echo Eval Eval where
  Rel x y := x.Agrees o y fun _ => True
  pure _ := .pure trivial
  bind hx hf := hx.bind fun a _ => hf a

section Outlooks

variable {o : Outlook} {setup : Setup} {view view' : View}

/-! ### Planning -/

namespace Planner

theorem follow_agrees (name : String) (isStandIn : Bool) (e : CallExpectation) :
    (follow name isStandIn e).Agrees o (follow name isStandIn e) := by
  unfold follow
  split
  · refine .bind ?_ fun _ => .pure _
    unfold exception
    split
    · exact .pure _
    · exact .ofScript .newException
  · split
    · split
      · exact .throw _
      · exact .pure _
    · exact .pure _

theorem unconfigured_agrees (call : Call) (refused : Bool) (step : Nat) :
    (unconfigured call refused step).Agrees o (unconfigured call refused step) := by
  unfold unconfigured
  split
  · exact .throw _
  · split
    · exact .throw _
    · exact .pure _

theorem plan_agrees (hp : setup.program.Within o) (hview : o.Shows view view')
    (call : Call) (forked : Bool) :
    (plan setup view call forked).Agrees o (plan setup view' call forked) := by
  unfold plan
  rw [hview.steps]
  split
  · exact .pure _
  · exact .pure _
  · dsimp only
    unfold expected
    refine .bind .get fun s => ?_
    split
    · refine .bind (.ofScript
        ((Eval.Agrees.echo o).recordCall (fun f _ => hp.accepts_agrees hview f) ..)) fun r => ?_
      split
      · exact .throw _
      · exact .bind (.modify fun _ => rfl) fun _ => follow_agrees ..
    · exact unconfigured_agrees ..

end Planner

/-! ### Handling effects -/

namespace Handling

theorem dispatch_agrees (hp : setup.program.Within o) (hview : o.Shows view view')
    (step : Nat) (action : Mapping) (object : Value) :
    (dispatch setup view step action object).Agrees o
      (dispatch setup view' step action object) := by
  unfold dispatch
  refine .bind (.modify fun _ => rfl) fun _ => .bind .get fun s => ?_
  refine .bind (.ofScript
    ((Eval.Agrees.echo o).recordAction (fun f _ => hp.accepts_agrees hview f) ..)) fun r => ?_
  split
  · exact .throw _
  · exact .bind (.modify fun _ => rfl) fun _ => .pure _

theorem serve_agrees (hp : setup.program.Within o) (hview : o.Shows view view') (context : Context)
    (pattern : Value) :
    (serve setup view context pattern).Agrees o (serve setup view' context pattern) := by
  unfold serve
  refine .bind .get fun s => ?_
  refine .bind (.ofScript ((Eval.Agrees.echo o).take?
    (fun f _ => hp.accepts_agrees hview f) _)) fun r => ?_
  split
  · exact .throw _
  · exact .bind (.modify fun _ => rfl) fun _ => .pure _
  · split
    · exact .pure _
    · exact .throw _

theorem look_agrees (hp : setup.program.Within o) (hview : o.Shows view view') (pattern : Value) :
    (look setup view pattern).Agrees o (look setup view' pattern) := by
  unfold look
  refine .bind .get fun s => ?_
  refine .bind (.ofScript ((Eval.Agrees.echo o).peek?
    (fun f _ => hp.accepts_agrees hview f) _)) fun r => ?_
  split
  · exact .throw _
  · exact .pure _

theorem evaluate_agrees (hp : setup.program.Within o) (hview : o.Shows view view') (step : Nat)
    (selector : Value) (args : List Value) :
    (evaluate setup view step selector args).Agrees o
      (evaluate setup view' step selector args) := by
  unfold evaluate
  refine .bind (.attempt (hp.call_agrees hview ..)) fun r => ?_
  split
  · split
    · exact .throw _
    · exact .throw _
  · split
    · exact .pure _
    · exact .throw _

theorem consult_agrees (hp : setup.program.Within o)
    (hview : o.Shows view view') (context : Context)
    (fn key : Value) :
    (consult setup view context fn key).Agrees o (consult setup view' context fn key) :=
  .ofScript (hp.call_agrees hview ..)

theorem react_agrees (hp : setup.program.Within o) (hview : o.Shows view view') (h : Handling)
    (context : Context) (e : Effect) :
    (react setup h view context e).Agrees o (react setup h view' context e) := by
  unfold react
  split
  · exact dispatch_agrees hp hview ..
  · exact serve_agrees hp hview ..
  · exact look_agrees hp hview _
  · exact evaluate_agrees hp hview ..
  · exact .pure _
  · exact .pure _
  · exact .bind (consult_agrees hp hview ..) fun _ => .pure _
  · exact .bind (consult_agrees hp hview ..) fun _ => .pure _
  · exact .pure _

end Handling

/-! ### The world of a setup -/

/-- A run does not leave the outlook of its script. -/
theorem Setup.world_closed (hp : setup.program.Within o) :
    setup.world.Closed fun s => s.memory.Within o where
  resume view g signal _ hs := hp.resume_kept view g signal hs
  plan view call forked _ hs := (Planner.plan_agrees hp (.refl view) call forked).kept hs
  invoke view _ _ hs := (hp.call_agrees (.refl view) ..).kept hs
  handle := by
    intro e h hh view context s hs
    obtain ⟨handling, _, rfl⟩ := Option.map_eq_some_iff.mp hh
    exact (Handling.react_agrees hp (.refl view) handling context e).kept hs

/-- A bench on which a function of the script has been called: its generator has not started. -/
def Bench.calling (p : Program) (name : String) : Bench :=
  { Bench.empty with memory :=
    (Memory.empty.newGenerator [] (((p.find? name).map (·.body)).getD [])).2 }

theorem Bench.calling_within {p : Program} (hp : p.Within o) (name : String) :
    (Bench.calling p name).memory.Within o := by
  have hempty : Memory.empty.Within o := fun g state h => by cases h
  refine hempty.newGenerator [] ?_
  cases hfind : p.find? name with
  | none => rfl
  | some d => exact hp.find? hfind

/-! ### Wait states -/

/-- The outlook that leaves out the wait states of tasks. -/
def Script.Outlook.untimed : Outlook := ⟨(· != "wait"), true⟩

/-- Views that are the same but for wait states show the same if these may not be read. -/
theorem Script.Outlook.untimed_shows (h : view.untimed = view'.untimed) :
    Outlook.untimed.Shows view view' where
  attr := by
    intro name hname v
    have hwait : (name == "wait") = false := (Bool.not_eq_true' _).mp hname
    unfold attributeOf
    dsimp only
    split
    · rfl
    · cases v with
      | marker m =>
        have hstatus :
            (if m.own then view.status? m.id else none).map (fun s => { s with wait := .now }) =
            (if m.own then view'.status? m.id else none).map fun s => { s with wait := .now } := by
          split
          · exact congrFun (congrArg View.status? h) m.id
          · rfl
        dsimp only
        generalize (if m.own then view.status? m.id else none) = status at hstatus ⊢
        generalize (if m.own then view'.status? m.id else none) = status' at hstatus ⊢
        cases status with
        | none =>
          cases status' with
          | none => rfl
          | some s' => cases hstatus
        | some s =>
          cases status' with
          | none => cases hstatus
          | some s' =>
            simp only [Option.map_some, Option.some.injEq, Status.mk.injEq, true_and] at hstatus
            simp only [hwait, hstatus.1, hstatus.2, Bool.false_eq_true, if_false]
      | _ => rfl
  steps := show view.untimed.steps = view'.untimed.steps by rw [h]
  handled _ := show view.untimed.handled = view'.untimed.handled by rw [h]

/-- **A bench whose script does not read wait states does not look at them.** -/
theorem Setup.timelessIn (hp : setup.program.Within .untimed) :
    setup.world.TimelessIn fun s => s.memory.Within .untimed where
  closed := setup.world_closed hp
  resume := by
    intro v v' hv g signal s hs
    have hresume : resume setup.program v g signal s.memory =
        resume setup.program v' g signal s.memory :=
      hp.resume_eq (Outlook.untimed_shows hv) g signal hs
    exact congrArg (fun went : Response × Memory => (went.1, { s with memory := went.2 })) hresume
  plan hv call forked _ hs := (Planner.plan_agrees hp (Outlook.untimed_shows hv) call forked).run hs
  invoke := by
    intro v v' hv call s hs
    have hcall := (hp.call_agrees (Outlook.untimed_shows hv) call.fn call.args call.kwargs).run hs
    simp only [world, hcall]
  handler := by
    intro e h hh v v' hv context s hs
    obtain ⟨handling, _, rfl⟩ := Option.map_eq_some_iff.mp hh
    exact (Handling.react_agrees hp (Outlook.untimed_shows hv) handling context e).run hs

end Outlooks

/-! ### Ticks -/

/-- **Ticks matter by their order only.** Whatever strictly increasing `f` is applied to the ticks
of all tasks as they are made, and whatever code is run that does not look at wait states: after any
number of steps the same tasks are there with the same ids and results, the same is going on, the
same steps have been counted, and the world around the scheduler has been asked the same and is in
the same state. Only the wait states that reports and diagnostics show are others. For reports to be
written in both runs no tick may have too many digits, as it is or with `f` applied.

So it is on the bench, with any planner and any handlers, if nothing in the script reads the
attribute. -/
theorem only_order_of_ticks_matters {f : Nat → Nat} (hf : StrictMono f) :
    (∀ {σ : Type} (w : World σ) {P : σ → Prop}, w.TimelessIn P →
      ∀ (o : RunOptions) {outer : σ}, P outer → ∀ (name : String) (g n : Nat),
      (∀ k < n, (Config.run w o k (Config.launched outer name g)).machine.registry.Brief f) →
      (Config.run w o n (Config.launched outer name g)).Retimed f
        (Config.runRetimed f w o n (Config.launched outer name g))) ∧
    ∀ (setup : Setup), setup.program.Within .untimed →
    ∀ (o : RunOptions) {s : Bench}, s.memory.Within .untimed → ∀ (name : String) (g n : Nat),
      (∀ k < n, (Config.run setup.world o k (Config.launched s name g)).machine.registry.Brief f) →
      (Config.run setup.world o n (Config.launched s name g)).Retimed f
        (Config.runRetimed f setup.world o n (Config.launched s name g)) := by
  constructor
  · intro σ w P hw o outer hP name g n brief
    exact hw.run_retimed hf o hP name g n brief
  · intro setup hp o s hs name g n brief
    exact (setup.timelessIn hp).run_retimed hf o hs name g n brief

namespace Spacing

/-- The root spawns two tasks, and then delays itself by 7. -/
def program : Program := ⟨[⟨⟨"root", .generator⟩, [],
  [.yield none (.effect (.fork [] true) [.const (.function ⟨"first", .plain⟩)]),
    .yield none (.effect (.fork [] true) [.const (.function ⟨"second", .plain⟩)]),
    .yield none (.const (.effect (.delay 7)))]⟩]⟩

/-- The tasks are given the ticks 5 and 2. -/
def setup : Setup where
  program
  planner :=
    .table [("first", ⟨false, .int 10, none, .tick 5⟩), ("second", ⟨false, .int 20, none, .tick 2⟩)]
  selection := ⟨.null, .ofList false [], false⟩
  handlers := .empty

/-- What becomes of the root after `n` steps. -/
def run (n : Nat) : Config Bench :=
  Config.run setup.world .default n (Config.launched (Bench.calling setup.program "root") "root" 0)

/-- The same when `2 * k + 1` stands for every tick `k`. -/
def runLonger (n : Nat) : Config Bench :=
  Config.runRetimed (fun k => 2 * k + 1) setup.world .default n
    (Config.launched (Bench.calling setup.program "root") "root" 0)

/-- The root spawns a task and joins it in a list. -/
def joining : Setup := { setup with
  program := ⟨[⟨⟨"root", .generator⟩, [],
    [.yield none (.effect (.fork [] true) [.const (.function ⟨"first", .plain⟩)]),
      .yield none (.const (.effect (.join (.listed false [⟨1, "first", true⟩]))))]⟩]⟩ }

def tooLate (k : Nat) : Nat := k + Nat.pow 10 4300

end Spacing

/-- With the ticks 11, 5 and 15 the same tasks start in the same steps. -/
theorem waiting_longer_changes_nothing :
    StrictMono (fun k : Nat => 2 * k + 1) ∧ Spacing.setup.program.Within .untimed ∧
      (∀ k < 33, (Spacing.run k).machine.registry.Brief fun k => 2 * k + 1) ∧
      (Spacing.runLonger 12).control = .start 2 ∧ (Spacing.runLonger 23).control = .start 1 ∧
      (Spacing.runLonger 33).control = .start 3 ∧
      ∀ e ∈ [(1, 11), (2, 5), (3, 15)],
        ((Spacing.runLonger 12).machine.get? e.1).map (·.wait) = some (.tick e.2) := by
  have hf : StrictMono fun k : Nat => 2 * k + 1 := fun a b hab => by
    dsimp only
    omega
  have hp : Spacing.setup.program.Within .untimed := by
    show ∀ d ∈ Spacing.program.declarations, bodyWithin .untimed d.body = true
    decide
  have brief : ∀ k < 33, (Spacing.run k).machine.registry.Brief fun k => 2 * k + 1 := by
    decide +kernel
  have hs := Bench.calling_within hp "root"
  have hworld :=
    (only_order_of_ticks_matters hf).1 Spacing.setup.world (Spacing.setup.timelessIn hp) .default hs
    "root" 0
  have hbench := (only_order_of_ticks_matters hf).2 Spacing.setup hp .default hs "root" 0
  have hcontrol : ∀ n t, n ≤ 33 → (Spacing.run n).control = .start t →
      (Spacing.runLonger n).control = .start t := by
    intro n t hle hn
    have alike := hworld n fun k hk => brief k (hk.trans_le hle)
    exact (alike.control.eq fun x hx => by cases hn.symm.trans hx).trans hn
  refine ⟨hf, hp, brief, hcontrol 12 2 (by decide) rfl, hcontrol 23 1 (by decide) rfl,
    hcontrol 33 3 (by decide) rfl, ?_⟩
  intro e he
  rw [Spacing.runLonger, (hbench 12 fun k hk => brief k (hk.trans (by decide))).machine.get?]
  simp only [List.mem_cons, List.not_mem_nil, or_false] at he
  rcases he with rfl | rfl | rfl <;> rfl

/-- **A tick that cannot be written takes the place of a report.** Under a ceiling of two steps
the run ends with its report, which shows what the joined task waits for; when that is too long a
number, with an exception. -/
theorem overlong_tick_tells_runs_apart :
    StrictMono Spacing.tooLate ∧ Spacing.joining.program.Within .untimed ∧
    (Config.run Spacing.joining.world (RunOptions.default.within 2) 30 (Config.launched
      (Bench.calling Spacing.joining.program "root") "root" 0)).failure? matches some
        (.harness (.stopped _ 3 .stepLimit)) ∧
    (Config.runRetimed Spacing.tooLate Spacing.joining.world (RunOptions.default.within 2) 30
      (Config.launched (Bench.calling Spacing.joining.program "root") "root" 0)).failure? matches
        some (.exn ⟨.value, _, _⟩) := by
  have hf : StrictMono Spacing.tooLate := fun a b hab => by
    unfold Spacing.tooLate
    omega
  refine ⟨hf, ?_, by decide +kernel, by decide +kernel⟩
  show ∀ d ∈ Spacing.joining.program.declarations, bodyWithin .untimed d.body = true
  decide

end Rehearsal
