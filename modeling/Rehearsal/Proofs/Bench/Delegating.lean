import Rehearsal.Proofs.Bench.Looking
import Rehearsal.Proofs.Engine.Entering
import Rehearsal.Proofs.Script.Anchored

/-!
# Scripts that delegate

The generators of a setup's script, run as frames and run by delegation. A script whose bare raises
all stand in handlers cannot tell the two apart; a bare raise elsewhere means the exception that is
handled around the delegation, and nothing where its generator is a frame.
-/
namespace Rehearsal

open Script

/-! ### The generators of a script -/

/-- The generators of a setup's script. One that is suspended in a handler, or in final statements
that an exception has led to, is handling that exception. -/
def Setup.generators (setup : Setup) : Generators Bench where
  world := setup.world
  handling g s := match s.memory.generators[g]? with
    | some (.suspended _ ks) => currentException? ks
    | _ => none

/-- **Scripts whose bare raises stand in handlers do not heed what is being handled around them.**
-/
theorem Script.Program.Anchored.heedless {setup : Setup} (hp : setup.program.Anchored) :
    setup.generators.Heedless fun s => s.memory.Anchored := by
  simp only [← Program.within_inward, ← Memory.within_inward] at hp ⊢
  have closed := setup.world_closed hp
  constructor
  case within_eq =>
    intro s hs around view g signal
    have hshows : (Outlook.inward false).Shows { view with handled := around } view :=
      ⟨fun _ _ => rfl, rfl, nofun⟩
    have hresume : resume setup.program { view with handled := around } g signal s.memory =
        resume setup.program view g signal s.memory := hp.resume_eq hshows g signal hs
    exact congrArg (fun went : Response × Memory => (went.1, { s with memory := went.2 })) hresume
  case resumed =>
    intro s hs view g signal
    exact closed.resume view g signal hs
  case entered_eq =>
    intro s hs around view x
    have hshows : (Outlook.inward false).Shows { view with handled := around } view :=
      ⟨fun _ _ => rfl, rfl, nofun⟩
    have hplan (call : Call) :
        setup.generators.world.plan { view with handled := around } call false s =
          setup.generators.world.plan view call false s :=
            (Planner.plan_agrees hp hshows call false).run hs
    unfold World.entered?
    split
    · rfl
    · rename_i fn args kwargs
      rw [hplan]
      split
      · rename_i plan s₁ hplanned
        have hs₁ : s₁.memory.Within (.inward false) :=
          (congrArg (·.2.memory.Within (.inward false)) hplanned).mp
            (closed.plan view ⟨fn, args, kwargs⟩ false hs)
        have hinvoke :
            setup.generators.world.invoke { view with handled := around } ⟨fn, args, kwargs⟩ s₁ =
              setup.generators.world.invoke view ⟨fn, args, kwargs⟩ s₁ :=
          congrArg (fun went : Except Exn Value × Memory => (went.1, { s₁ with memory := went.2 }))
            ((hp.call_agrees hshows fn args kwargs).run hs₁)
        rw [hinvoke]
      · rfl
    · rfl
  case entered =>
    intro s s' hs view x g h
    unfold World.entered? at h
    split at h
    case h_1 =>
      cases h
      exact hs
    case h_3 => cases h
    rename_i fn args kwargs
    split at h
    case h_2 => cases h
    rename_i plan s₁ hplan
    have hplanned : s₁.memory.Within (.inward false) :=
      (congrArg (·.2.memory.Within (.inward false)) hplan).mp
        (closed.plan view ⟨fn, args, kwargs⟩ false hs)
    split at h
    case isFalse => cases h
    split at h
    case h_2 => cases h
    rename_i hinvoke
    cases h
    exact (congrArg (·.2.memory.Within (.inward false)) hinvoke).mp
      (closed.invoke view ⟨fn, args, kwargs⟩ hplanned)

/-! ### Scripts that enter a generator -/

/-- Calls are made for real. -/
def Setup.ofProgram (p : Program) : Setup := ⟨p, .real, ⟨.null, .ofList false [], false⟩, .empty⟩

theorem Bench.calling_anchored {p : Program} (hp : p.Anchored) (name : String) :
    (Bench.calling p name).memory.Anchored :=
  Memory.within_inward.mp (Bench.calling_within (Program.within_inward.mpr hp) name)

def enteringInner (inner : List Stmt) (outer : Stmt → Stmt) : Program := ⟨[
  ⟨⟨"inner", .generator⟩, [], inner⟩,
  ⟨⟨"outer", .generator⟩, [],
    [outer (.yield none (.effect (.call []) [.const (.function ⟨"inner", .generator⟩)]))]⟩]⟩

/-- What is thrown into the inner generator is caught by the outer one. -/
def catching : Program := enteringInner [.yield none (.const (.effect (.delay 1)))] fun enter =>
  .guarded [enter] [⟨[.error .value], none, [.ret (.const (.text "caught"))]⟩] none

/-! ### Frames and delegation -/

/-- **Generators entered as frames behave as if delegated to.** Where all bare raises of the script
stand in handlers, a coroutine replies to whatever it is sent and thrown as the generator at its
bottom does if it delegates to those that it enters, and so on upwards; and what the coroutine of a
task replies, whatever is being handled where it is resumed, is what the run goes on to. -/
theorem Setup.frames_delegate {setup : Setup} (anchored : setup.program.Anchored) :
    (∀ (inputs : List (Input Bench)) (g : Nat) (s : Bench) (replies : List (Reply Unit Bench)),
      (∀ input ∈ inputs, ∀ s, s.memory.Anchored → (input.meanwhile s).memory.Anchored) →
      s.memory.Anchored →
      (Dialogue (Coroutine.Answers setup.world) inputs (.ofGenerator g) s replies ↔
        Dialogue setup.generators.Answers inputs ⟨[g], false⟩ s replies)) ∧
    ∀ (o : RunOptions) (m : Machine Bench) (stack : List Frame) (t : Nat)
    (task : Task) (c : Coroutine)
      (input : Input Bench) (reply : Reply Coroutine Bench), m.outer.memory.Anchored →
      m.get? t = some task → task.coroutine = some c →
      { input.view with handled := m.handled } = m.view →
      c.Answers setup.world input m.outer reply →
      reply.view.steps ≤ o.stepLimit →
      ∃ n, Config.Replied m stack t reply (Config.run setup.world o n
        (Config.resumeSeeing setup.world input.view m stack t input.signal)) := by
  constructor
  · intro inputs g s replies decent hs
    exact anchored.heedless.dialogue_iff decent (d := ⟨[g], false⟩) (List.cons_ne_nil g []) hs
  · intro o m stack t task c input reply hs ht hc hview answered hlimit
    exact Config.runs_of_answers anchored.heedless hs ht hc hview answered hlimit

/-- An exception thrown past a frame is caught by the one below. -/
theorem frames_delegate_catching : catching.Anchored ∧ ∃ s₁ s₂,
    Dialogue (Coroutine.Answers (Setup.ofProgram catching).world)
      [⟨.send .null, .idle, id⟩, ⟨.throw ⟨.value, [], .scheduler 0⟩, .idle, id⟩] (.ofGenerator 0)
      (Bench.calling catching "outer")
      [.asks (.effect (.delay 1)) () View.idle.counted s₁,
        .ends (.ok (.text "caught")) .idle s₂] := by
  have anchored : (Setup.ofProgram catching).program.Anchored := by
    show ∀ d ∈ catching.declarations, allAnchored d.body = true
    decide
  have decent : ∀ input ∈ [(⟨.send .null, .idle, id⟩ : Input Bench),
      ⟨.throw ⟨.value, [], .scheduler 0⟩, .idle, id⟩], ∀ s, s.memory.Anchored →
        (input.meanwhile s).memory.Anchored := by
    intro input hinput s hs
    simp only [List.mem_cons, List.not_mem_nil, or_false] at hinput
    rcases hinput with rfl | rfl <;> exact hs
  refine ⟨anchored, ?_⟩
  apply Exists.intro
  apply Exists.intro
  apply ((Setup.frames_delegate anchored).1 _ 0 _ _ decent (Bench.calling_anchored anchored _)).mpr
  apply Dialogue.asks
  case answered =>
    apply Exists.intro
    apply And.intro
    · apply Generators.Delegates.enters
      · rfl
      · rfl
      · apply Generators.Delegates.passes
        apply Generators.Delegates.asks <;> rfl
    · rfl
  case onward =>
    apply Dialogue.ends
    apply Exists.intro
    apply And.intro
    · apply Generators.Delegates.resumes
      · apply Generators.Delegates.raises <;> rfl
      · apply Generators.Delegates.returns
        rfl
    · rfl

/-- The inner generator raises what the outer one is handling. -/
def straying : Program := enteringInner [.reraise] fun enter =>
  .guarded [.raise (.exception .value [])] [⟨[.error .value], none, [enter]⟩] none

/-- A bare raise that stands in no handler of its function tells a frame from a delegation: it
raises the exception being handled around it, if there is one. -/
theorem stray_raise_tells_frames_apart :
    (∃ s, Dialogue (Setup.ofProgram straying).generators.Answers
      [⟨.send .null, .idle, id⟩] ⟨[0], false⟩
      (Bench.calling straying "outer")
        [.ends (.error ⟨.value, [], .script 0⟩) View.idle.counted s]) ∧
    (∃ s, Dialogue (Coroutine.Answers (Setup.ofProgram straying).world) [⟨.send .null, .idle, id⟩]
      (.ofGenerator 0) (Bench.calling straying "outer")
      [.ends (.error ⟨.runtime, [.text "No active exception to reraise"], .script 2⟩)
        View.idle.counted s]) ∧
    ¬ ∀ replies, Dialogue (Coroutine.Answers (Setup.ofProgram straying).world)
      [⟨.send .null, .idle, id⟩]
        (.ofGenerator 0) (Bench.calling straying "outer") replies ↔
      Dialogue (Setup.ofProgram straying).generators.Answers [⟨.send .null, .idle, id⟩] ⟨[0], false⟩
        (Bench.calling straying "outer") replies := by
  have hframes : ∃ s, Coroutine.Answers (Setup.ofProgram straying).world ⟨.send .null, .idle, id⟩
      (.ofGenerator 0) (Bench.calling straying "outer")
      (.ends (.error ⟨.runtime, [.text "No active exception to reraise"], .script 2⟩)
        View.idle.counted s) := by
    apply Exists.intro
    apply Coroutine.Settles.enters
    · rfl
    · apply Coroutine.Settles.raises
      rfl
  have hnative :
      ∃ s, Dialogue (Setup.ofProgram straying).generators.Answers [⟨.send .null, .idle, id⟩]
      ⟨[0], false⟩ (Bench.calling straying "outer")
      [.ends (.error ⟨.value, [], .script 0⟩) View.idle.counted s] := by
    apply Exists.intro
    apply Dialogue.ends
    apply Exists.intro
    apply And.intro
    · apply Generators.Delegates.enters
      · rfl
      · rfl
      · apply Generators.Delegates.resumes
        · apply Generators.Delegates.raises <;> rfl
        · apply Generators.Delegates.raises <;> rfl
    · rfl
  obtain ⟨s, hframes⟩ := hframes
  refine ⟨hnative, ⟨s, .ends hframes⟩, ?_⟩
  intro h
  obtain ⟨s', hnative⟩ := hnative
  cases (h _).mpr hnative with
  | ends answered => exact absurd (answered.unique hframes) (by simp)

end Rehearsal
