import Rehearsal.Proofs.Engine.Failing
import Rehearsal.Proofs.Engine.Recording

/-!
# Unwinding

When the innermost generator of a coroutine ends, the one below it is resumed with what it ended
with, and so on until one yields. `Unwinds` says what is on record of that: each generator is
resumed once at most, and nothing is thrown into one but what came in from outside or escaped the
generator above it.
-/
namespace Rehearsal

variable {σ : Type}

/-- What is on record of a coroutine that was resumed with a signal: its generators, from the
innermost down, each resumed with what the one before it ended with. -/
inductive Unwinds : Signal → List Nat → List Exchange → Prop
  | spent (signal : Signal) : Unwinds signal [] []
  | stays (signal : Signal) (g : Nat) (below : List Nat) (response : Response) :
      Unwinds signal (g :: below) [.resumed g signal response]
  | returns (signal : Signal) (g : Nat) {below : List Nat} {v : Value} {log : List Exchange}
      (rest : Unwinds (.send v) below log) :
      Unwinds signal (g :: below) (.resumed g signal (.returned v) :: log)
  | escapes (signal : Signal) (g : Nat) {below : List Nat} {e : Exn} {log : List Exchange}
      (rest : Unwinds (.throw e) below log) :
      Unwinds signal (g :: below) (.resumed g signal (.raised e) :: log)

/-- The generator that is resumed. -/
def Exchange.generator? : Exchange → Option Nat
  | .resumed g _ _ => some g
  | _ => none

/-- Each generator is resumed once at most, and none before the ones above it. -/
theorem Unwinds.generators {signal : Signal} {frames : List Nat} {log : List Exchange}
    (h : Unwinds signal frames log) : log.map Exchange.generator? <+: frames.map some := by
  induction h with
  | spent => exact List.prefix_refl _
  | stays _ g below => exact List.prefix_append [some g] (below.map some)
  | returns _ g _ ih => exact List.prefix_cons_inj (some g) |>.mpr ih
  | escapes _ g _ ih => exact List.prefix_cons_inj (some g) |>.mpr ih

/-- Whatever holds of the exception that comes in from outside, and of all that escape, holds of all
that are thrown. -/
theorem Unwinds.thrown {P : Exn → Prop} {signal : Signal} {frames : List Nat} {log : List Exchange}
    (h : Unwinds signal frames log) (outside : ∀ e, signal = .throw e → P e)
    (escaped : ∀ g s e, .resumed g s (.raised e) ∈ log → P e) :
    ∀ g e response, .resumed g (.throw e) response ∈ log → P e := by
  induction h with
  | spent => intro g e response hmem; cases hmem
  | stays signal g' below response' =>
    intro g e response hmem
    cases List.mem_singleton.mp hmem
    exact outside e rfl
  | returns signal g' _ ih =>
    intro g e response hmem
    rcases List.mem_cons.mp hmem with heq | hmem
    · cases heq
      exact outside e rfl
    · exact ih (by simp) (fun g s e h => escaped g s e (List.mem_cons_of_mem _ h)) g e response hmem
  | @escapes signal g' below e' log _ ih =>
    intro g e response hmem
    rcases List.mem_cons.mp hmem with heq | hmem
    · cases heq
      exact outside e rfl
    · refine ih (fun e hthrow => ?_)
        (fun g s e h => escaped g s e (List.mem_cons_of_mem _ h)) g e response hmem
      cases hthrow
      exact escaped g' signal e' (List.mem_cons_self ..)

namespace Coroutine

variable (w : World σ) (view : View) (spent : Exn)

/-- **A coroutine that is resumed unwinds.** -/
theorem advance_unwinds (signal : Signal) (frames : List Nat) (s : σ × List Exchange) :
    ∃ log, (advance (w.recorded.resume view) spent signal frames s).2.2.2 = s.2 ++ log ∧
      Unwinds signal frames log := by
  induction frames generalizing signal s with
  | nil => exact ⟨[], (List.append_nil _).symm, .spent signal⟩
  | cons g below ih =>
    have hresume : w.recorded.resume view g signal s =
        ((w.resume view g signal s.1).1, (w.resume view g signal s.1).2,
          s.2 ++ [.resumed g signal (w.resume view g signal s.1).1]) := rfl
    rw [advance, hresume]
    generalize w.resume view g signal s.1 = went
    obtain ⟨response, outer⟩ := went
    have hstays : ∃ log, s.2 ++ [Exchange.resumed g signal response] = s.2 ++ log ∧
        Unwinds signal (g :: below) log := ⟨_, rfl, .stays signal g below response⟩
    cases response with
    | yielded v => exact hstays
    | returned v =>
      dsimp only
      split
      · exact hstays
      · obtain ⟨log, hlog, unwinds⟩ :=
          ih (.send v) (outer, s.2 ++ [.resumed g signal (.returned v)])
        exact ⟨_, hlog.trans (List.append_assoc ..), .returns signal g unwinds⟩
    | raised e =>
      dsimp only
      split
      · exact hstays
      · split
        · exact hstays
        · obtain ⟨log, hlog, unwinds⟩ :=
            ih (.throw e) (outer, s.2 ++ [.resumed g signal (.raised e)])
          exact ⟨_, hlog.trans (List.append_assoc ..), .escapes signal g unwinds⟩

end Coroutine

/-! ### Steps that resume nobody -/

def Control.resumes : Control → Bool
  | .answer (.block _) => false
  | .answer _ | .raised _ | .drive .. => true
  | _ => false

def World.still (w : World σ) : World σ := { w with resume := fun _ _ _ s => (.returned .null, s) }

/-- The resumptions on record. -/
def Config.resumptions (c : Config (σ × List Exchange)) : List Exchange :=
  c.machine.outer.2.filter fun x => x.generator?.isSome

/-- Nothing but a resumption adds to the resumptions on record. -/
theorem World.still_closed (w : World σ) (log : List Exchange) :
    w.recorded.still.Closed fun s => s.2.filter (fun x => x.generator?.isSome) = log where
  resume _ _ _ _ h := h
  plan _ _ _ _ h := by simpa [still, recorded, Exchange.generator?] using h
  invoke _ _ _ h := by simpa [still, recorded, Exchange.generator?] using h
  handle := by
    intro e h hh view context s hs
    obtain ⟨handler, _, rfl⟩ := Option.map_eq_some_iff.mp hh
    simpa [Exchange.generator?] using hs

namespace Config

variable {w : World σ} {o : RunOptions}

theorem step_still (w : World σ) (o : RunOptions) {c : Config σ} (h : c.control.resumes = false) :
    c.step w.still o = c.step w o := by
  obtain ⟨m, stack, control⟩ := c
  cases control with
  | answer a =>
    cases a with
    | block i =>
      cases stack with
      | nil => rfl
      | cons frame below => cases frame <;> rfl
    | _ => cases h
  | raised | drive => cases h
  | _ => rfl

/-- A step that resumes nobody leaves the resumptions on record as they are. -/
theorem resumptions_step {c : Config (σ × List Exchange)} (h : c.control.resumes = false) :
    (c.step w.recorded o).resumptions = c.resumptions := by
  rw [← step_still w.recorded o h]
  exact outer_step (w.still_closed c.resumptions) o rfl

/-! ### Steps that do -/

/-- After a coroutine is resumed with a signal, what is new on record is that it has unwound; and
whatever was thrown into it from outside is what the signal throws. -/
def Resumed (signal : Signal) (before after : List Exchange) : Prop :=
  ∃ log signal' frames, after = before ++ log ∧ Unwinds signal' frames log ∧
    ∀ e, signal' = .throw e → signal = .throw e

theorem Resumed.refl (signal : Signal) (record : List Exchange) : Resumed signal record record :=
  ⟨[], .send .null, [], (List.append_nil _).symm, .spent _, by simp⟩

theorem withCoroutine_resumed {m : Machine (σ × List Exchange)} {signal : Signal}
    {go : Coroutine → σ × List Exchange → Progress × Coroutine × (σ × List Exchange)}
    (hgo : ∀ c s, Resumed signal s.2 (go c s).2.2.2) (stack : List Frame) (t : Nat) :
    Resumed signal m.outer.2 (withCoroutine m stack t go).machine.outer.2 := by
  unfold withCoroutine
  split
  · exact .refl ..
  · rename_i c _
    have hresumed := hgo c m.outer
    generalize go c m.outer = went at hresumed
    obtain ⟨p, c', s⟩ := went
    dsimp only
    unfold afterProgress
    split
    · exact hresumed
    · exact hresumed
    · split <;> exact hresumed

theorem resume_resumed (view : View) (m : Machine (σ × List Exchange))
    (stack : List Frame) (t : Nat)
    (signal : Signal) :
    Resumed signal m.outer.2 (resumeSeeing w.recorded view m stack t signal).machine.outer.2 := by
  refine withCoroutine_resumed (fun c s => ?_) stack t
  obtain ⟨log, hlog, unwinds⟩ := Coroutine.advance_unwinds w view (Coroutine.spent view.steps)
    (c.signalFor signal) c.frames s
  refine ⟨log, _, _, hlog, unwinds, fun e he => ?_⟩
  cases signal with
  | throw e' => exact he
  | send v =>
    unfold Coroutine.signalFor at he
    dsimp only at he
    split at he <;> cases he

theorem enter_resumed (m : Machine (σ × List Exchange)) (stack : List Frame) (t g : Nat) :
    Resumed (.send .null) m.outer.2 (enter w.recorded m stack t g).machine.outer.2 := by
  refine withCoroutine_resumed (fun c s => ?_) stack t
  obtain ⟨log, hlog, unwinds⟩ := Coroutine.advance_unwinds w m.view (Coroutine.spent m.view.steps)
    (.send .null) (g :: c.frames) s
  exact ⟨log, _, _, hlog, unwinds, fun e he => he⟩

/-- **A step resumes at most one coroutine**, and throws into it nothing but the exception that is
on its way. -/
theorem step_resumed (c : Config (σ × List Exchange)) (h : c.control.resumes = true) :
    ∃ signal, Resumed signal c.machine.outer.2 (c.step w.recorded o).machine.outer.2 ∧
      ∀ e, signal = .throw e → c.control.exn? = some e := by
  obtain ⟨m, stack, control⟩ := c
  cases control with
  | drive t signal =>
    refine ⟨signal,
      resume_resumed _ (m.modify t fun task => { task with running := true }) stack t signal,
      ?_⟩
    rintro e rfl
    rfl
  | raised e =>
    refine ⟨.throw e, ?_, fun e' he => by cases he; rfl⟩
    show Resumed _ _ (catchException w.recorded m e stack).machine.outer.2
    unfold catchException
    split
    · exact resume_resumed ..
    all_goals exact .refl ..
  | answer a =>
    cases stack with
    | nil => exact ⟨.send .null, .refl .., by simp⟩
    | cons frame below =>
      cases a with
      | block i => cases h
      | advance v =>
        cases frame with
        | driving t => exact ⟨.send v, resume_resumed m.view m below t (.send v), by simp⟩
        | _ => exact ⟨.send .null, .refl .., by simp⟩
      | enter g =>
        cases frame with
        | driving t => exact ⟨.send .null, enter_resumed m below t g, by simp⟩
        | _ => exact ⟨.send .null, .refl .., by simp⟩
  | _ => cases h

end Config

end Rehearsal
