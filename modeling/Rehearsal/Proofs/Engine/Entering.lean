import Rehearsal.Proofs.Engine.Delegation

/-!
# Entering generators

Between two answers to a task the scheduler does with its coroutine what `Coroutine.Settles` says:
each generator that is entered is interpreted as an effect, counts as a step, and is resumed as a
frame.
-/
namespace Rehearsal

variable {σ : Type}

namespace Machine

variable {m : Machine σ} {w : World σ} {o : RunOptions} {t : Nat} {task : Task}
    {c : Coroutine} {s s' : σ}
  {x : Value} {g : Nat}

def holding (m : Machine σ) (t : Nat) (c : Coroutine) (s : σ) : Machine σ :=
  { m with outer := s }.modify t fun task => { task with coroutine := some c }

def stepped (m : Machine σ) (steps : Nat) : Machine σ := { m with steps }

theorem get?_holding (ht : m.get? t = some task) (c : Coroutine) (s : σ) :
    (m.holding t c s).get? t = some { task with coroutine := some c } :=
  Registry.get?_modify_of_eq_some _ ht

@[simp] theorem holding_holding (m : Machine σ) (t : Nat) (c c' : Coroutine) (s s' : σ) :
    (m.holding t c s).holding t c' s' = m.holding t c' s' :=
  congrArg (fun r => { m with registry := r, outer := s' }) (Registry.modify_modify ..)

/-- Nothing shows of where a coroutine stands. -/
@[simp] theorem view_holding (m : Machine σ) (t : Nat) (c : Coroutine) (s : σ) :
    (m.holding t c s).view = m.view := by
  have hstatus (i : Nat) :
      ((m.holding t c s).get? i).map (fun t => (⟨t.wait, t.cancelled, t.done⟩ : Status)) =
        (m.get? i).map fun t => ⟨t.wait, t.cancelled, t.done⟩ := by
    have hget : (m.holding t c s).get? i = if i = t then
        (m.get? i).map fun task => { task with coroutine := some c } else m.get? i :=
      Registry.get?_modify ..
    rw [hget]
    split
    · rw [Option.map_map]
      rfl
    · rfl
  exact congrArg (View.mk m.steps · m.handled) (funext hstatus)

/-- An effect that enters a generator is answered by entering it. -/
theorem interpret_entered {m' : Machine σ} (counted : m.tick o = (.ok (), m'))
    (h : w.entered? m'.view x m'.outer = some (g, s')) (t : Nat) (b : Bool) :
    m.interpret w o t x b = .answer { m' with outer := s' } (.enter g) := by
  rw [interpret_counted w o m t x b (congrArg Prod.fst counted), counted]
  unfold World.entered? at h
  split at h
  · cases h
    rfl
  · rename_i fn args kwargs
    simp only [interpretEffect, interpretCall]
    split at h
    case h_2 => cases h
    rename_i plan s hplan
    split at h
    case isFalse => cases h
    rename_i hnow
    obtain ⟨hwait, herror, hinvoke⟩ := hnow
    split at h
    case h_2 => cases h
    rename_i hmade
    cases h
    have hproduce : ({ m' with outer := s } : Machine σ).produce w plan ⟨fn, args, kwargs⟩ =
        (.ok (.generator g), { m' with outer := s' }) := by
      have hinvoked : w.invoke ({ m' with outer := s } : Machine σ).view ⟨fn, args, kwargs⟩ s =
          (.ok (.generator g), s') := hmade
      simp only [produce, herror, if_pos hinvoke, hinvoked]
    rw [hplan]
    simp only [if_pos hwait, hproduce, produced]
  · cases h

end Machine

/-! ### Runs -/

namespace Config

variable {m : Machine σ} {w : World σ} {o : RunOptions} {stack : List Frame} {t : Nat} {task : Task}
  {c : Coroutine} {s s' : σ} {x : Value} {g : Nat} {view : View}

/-- What a task whose coroutine stands so goes on with. -/
def resumed (m : Machine σ) (stack : List Frame) (t : Nat) : Progress × Coroutine × σ → Config σ
  | (progress, c, s) => afterProgress (m.holding t c s) stack t progress

theorem withCoroutine_eq (ht : m.get? t = some task) (hc : task.coroutine = some c)
    (go : Coroutine → σ → Progress × Coroutine × σ) :
    withCoroutine m stack t go = resumed m stack t (go c m.outer) := by
  simp only [withCoroutine, ht, Option.bind_some, hc]
  rfl

/-- **A generator is entered in two steps**, the first of which counts. -/
theorem run_entered (ht : m.get? t = some task) (hlimit : m.steps < o.stepLimit)
    (entered : w.entered? m.view.counted x s = some (g, s')) :
    run w o 2 (resumed m stack t (.suspended x, c, s)) =
      resumed (m.stepped (m.steps + 1)) stack t (c.enter w m.view.counted g s') := by
  have hticked : (m.holding t c s).tick o = (.ok (), (m.stepped (m.steps + 1)).holding t c s) :=
    Machine.tick_of_lt _ hlimit
  have hview (c : Coroutine) (s : σ) :
      ((m.stepped (m.steps + 1)).holding t c s).view = m.view.counted :=
    Machine.view_holding ..
  have hinterpret : (m.holding t c s).interpret w o t x false =
      .answer ((m.stepped (m.steps + 1)).holding t c s') (.enter g) :=
    Machine.interpret_entered hticked ((hview c s).symm ▸ entered) t false
  have hfirst : step w o (resumed m stack t (.suspended x, c, s)) =
      ⟨(m.stepped (m.steps + 1)).holding t c s', .driving t :: stack, .answer (.enter g)⟩ :=
    congrArg (ofOutcome (.driving t :: stack)) hinterpret
  have hsecond : enter w ((m.stepped (m.steps + 1)).holding t c s') stack t g =
      resumed (m.stepped (m.steps + 1)) stack t (c.enter w m.view.counted g s') := by
    have hget := Machine.get?_holding (m := m.stepped (m.steps + 1)) ht c s'
    unfold enter
    rw [withCoroutine_eq hget rfl, hview]
    exact congrArg (fun m => afterProgress m stack t _) (Machine.holding_holding ..)
  rw [run, if_neg (by simp [resumed, afterProgress, isFinal]), hfirst]
  exact hsecond

/-- Where a task stands whose coroutine has come to a reply. -/
def Replied (m : Machine σ) (stack : List Frame) (t : Nat) : Reply Coroutine σ → Config σ → Prop
  | .asks x c view s, d => d = resumed (m.stepped view.steps) stack t (.suspended x, c, s)
  | .ends r view s, d => ∃ c, d = resumed (m.stepped view.steps) stack t (.ofEnd r, c, s)

/-- The run goes on to the reply that the coroutine settles on. -/
theorem runs_of_settles {stand : Progress × Coroutine × σ} {reply : Reply Coroutine σ}
    (h : Coroutine.Settles w view stand reply) (ht : m.get? t = some task) (hview : m.view = view)
    (hlimit : reply.view.steps ≤ o.stepLimit) :
    ∃ n, Replied m stack t reply (run w o n (resumed m stack t stand)) := by
  induction h generalizing m with
  | asks => exact ⟨0, by subst hview; rfl⟩
  | returns => exact ⟨0, _, by subst hview; rfl⟩
  | raises => exact ⟨0, _, by subst hview; rfl⟩
  | enters entered onward ih =>
    subst hview
    have hcount : m.steps + 1 ≤ o.stepLimit := Nat.le_trans onward.steps_le hlimit
    obtain ⟨n, hn⟩ := ih (m := m.stepped (m.steps + 1)) ht rfl hlimit
    refine ⟨2 + n, ?_⟩
    rw [run_add, run_entered ht hcount entered]
    cases reply <;> exact hn

/-- A task that is resumed goes on to the reply of its coroutine, also while an exception is being
handled that is not handled any more when the coroutine enters the next generator. -/
theorem runs_of_answers {p : Generators σ} {ok : σ → Prop} (heedless : p.Heedless ok)
    (hs : ok m.outer) {input : Input σ} {reply : Reply Coroutine σ} (ht : m.get? t = some task)
    (hc : task.coroutine = some c) (hview : { input.view with handled := m.handled } = m.view)
    (answered : c.Answers p.world input m.outer reply) (hlimit : reply.view.steps ≤ o.stepLimit) :
    ∃ n, Replied m stack t reply
      (run p.world o n (resumeSeeing p.world input.view m stack t input.signal)) := by
  have hresume : resumeSeeing p.world input.view m stack t input.signal =
      resumed m stack t (c.resume p.world input.view input.signal m.outer) :=
    withCoroutine_eq ht hc _
  have hsettles :=
    Generators.settles_anywhere heedless answered (heedless.keeps_advance hs) m.handled
  rw [hview] at hsettles
  have hreplied {d : Config σ} (h : Replied m stack t (reply.handling m.handled) d) :
      Replied m stack t reply d := by cases reply <;> exact h
  have hsteps : (reply.handling m.handled).view.steps ≤ o.stepLimit := by
    cases reply <;> exact hlimit
  rw [hresume]
  exact (runs_of_settles hsettles ht rfl hsteps).imp fun _ => hreplied

end Config

end Rehearsal
