import Mathlib.Logic.Function.Iterate
import Rehearsal.Engine.Run

/-!
# Sequential programs, run straight through

A program is sequential if it yields nothing but generators, calls, delays and effects for handlers.
It needs no tasks: `Straight` runs it on one stack of generators, and makes every call at once. What
the program can tell is how the world answers it. `World.Follows` says that one world answers as
another does, whatever it is shown of the run.
-/
namespace Rehearsal

variable {σ : Type}

/-- What a sequential program yields that asks for no effects but these. -/
inductive Value.Sequential (asked : Effect → Prop) : Value → Prop
  | generator (g : Nat) : Sequential asked (.generator g)
  | effect {e : Effect} (kind : e.kind = .inlineCall ∨ e.kind = .delay ∨ e.kind = .external)
      (asks : asked e) : Sequential asked (.effect e)

/-- Exceptions of the given classes only are thrown. -/
def Signal.Within (raisable : ErrorClass → Bool) : Signal → Prop
  | .send _ => True
  | .throw e => raisable e.kind = true

/-- The same refusal, though perhaps at another step. -/
inductive Failure.Alike : Failure → Failure → Prop
  | exn (e : Exn) : Alike (.exn e) (.exn e)
  | plain (message : String) : Alike (.harness (.plain message)) (.harness (.plain message))
  | configuration (message : String) :
      Alike (.harness (.configuration message)) (.harness (.configuration message))
  | unmatched (message : String) (step step' : Option Nat) :
      Alike (.harness (.unmatched message step)) (.harness (.unmatched message step'))

namespace Failure.Alike

variable {f f' f'' : Failure}

theorem symm (h : f.Alike f') : f'.Alike f := by
  cases h with
  | exn e => exact .exn e
  | plain message => exact .plain message
  | configuration message => exact .configuration message
  | unmatched message step step' => exact .unmatched message step' step

theorem trans (h : f.Alike f') (h' : f'.Alike f'') : f.Alike f'' := by
  cases h with
  | exn e => exact h'
  | plain message => exact h'
  | configuration message => exact h'
  | unmatched message step step' =>
    cases h' with
    | unmatched _ _ step'' => exact .unmatched message step step''

/-- Refusals that cannot be written are refused in the same way. -/
theorem reporting (long : Bool) (h : f.Alike f') :
    (Rehearsal.reporting long f).Alike (Rehearsal.reporting long f') := by
  cases long with
  | false => exact h
  | true => exact .exn _

end Failure.Alike

/-- Two answers that may be refusals: the same refusal, or answers that `p` relates. -/
inductive Agree {α β : Type} (p : α → β → Prop) : Except Failure α → Except Failure β → Prop
  | ok {a : α} {b : β} (h : p a b) : Agree p (.ok a) (.ok b)
  | error {f f' : Failure} (h : f.Alike f') : Agree p (.error f) (.error f')

namespace Agree

variable {α β γ : Type} {p : α → β → Prop}

theorem symm {q : β → α → Prop} (hq : ∀ a b, p a b → q b a) {x : Except Failure α}
    {y : Except Failure β} (h : Agree p x y) : Agree q y x := by
  cases h with
  | ok h => exact .ok (hq _ _ h)
  | error h => exact .error h.symm

theorem trans {q : β → γ → Prop} {r : α → γ → Prop} (hr : ∀ a b c, p a b → q b c → r a c)
    {x : Except Failure α} {y : Except Failure β} {z : Except Failure γ} (h : Agree p x y)
    (h' : Agree q y z) : Agree r x z := by
  cases h with
  | ok h =>
    cases h' with
    | ok h' => exact .ok (hr _ _ _ h h')
  | error h =>
    cases h' with
    | error h' => exact .error (h.trans h')

theorem mono {q : α → β → Prop} (hq : ∀ a b, p a b → q a b) {x : Except Failure α}
    {y : Except Failure β}
    (h : Agree p x y) : Agree q x y := by
  cases h with
  | ok h => exact .ok (hq _ _ h)
  | error h => exact .error h

theorem exists_ok {a : α} {y : Except Failure β} (h : Agree p (.ok a) y) :
    ∃ b, y = .ok b ∧ p a b := by
  cases h with
  | ok h => exact ⟨_, rfl, h⟩

end Agree

/-- Plans that differ in nothing but when the call is made. -/
structure CallPlan.SameButWait (p p' : CallPlan) : Prop where
  invoke : p.invoke = p'.invoke
  output : p.output = p'.output
  error : p.error = p'.error

namespace CallPlan.SameButWait

variable {p p' p'' : CallPlan}

theorem symm (h : p.SameButWait p') : p'.SameButWait p :=
  ⟨h.invoke.symm, h.output.symm, h.error.symm⟩

theorem trans (h : p.SameButWait p') (h' : p'.SameButWait p'') : p.SameButWait p'' :=
  ⟨h.invoke.trans h'.invoke, h.output.trans h'.output, h.error.trans h'.error⟩

end CallPlan.SameButWait

/-! ### The program on its own -/

/-- What a sequential program does next. -/
inductive Stage where
  /-- The innermost generator is resumed. Where none is left the program has ended so. -/
  | resume (signal : Signal)
  /-- The innermost generator has yielded `x`. -/
  | ask (x : Value)
  /-- The value of a planned call is due. -/
  | make (plan : CallPlan) (call : Call)
  /-- The run is refused by the planner or a handler. -/
  | refused (f : Failure)

/-- A sequential program on its way, with all its generators on one stack, innermost first. -/
structure Straight (σ : Type) where
  stage : Stage
  frames : List Nat
  outer : σ

namespace Straight

def sent (v : Value) (frames : List Nat) (s : σ) : Straight σ := ⟨.resume (.send v), frames, s⟩

def thrown (e : Exn) (frames : List Nat) (s : σ) : Straight σ := ⟨.resume (.throw e), frames, s⟩

/-- A value made for the program is entered if it is a generator. -/
def given (v : Value) (frames : List Nat) (s : σ) : Straight σ :=
  match v with
  | .generator g => sent .null (g :: frames) s
  | v => sent v frames s

def failed (f : Failure) (frames : List Nat) (s : σ) : Straight σ :=
  match f with
  | .exn e => if e.kind.isOrdinary then thrown e frames s else ⟨.refused (.exn e), frames, s⟩
  | .harness h => ⟨.refused (.harness h), frames, s⟩

def produce (w : World σ) (plan : CallPlan) (call : Call) (s : σ) : Except Exn Value × σ :=
  match plan.error with
  | some e => (.error e, s)
  | none => if plan.invoke then w.invoke .idle call s else (.ok plan.output, s)

/-- What a handler is told where there are no tasks. -/
def context : Context := ⟨⟨0, "", true⟩, false, 0⟩

/-- An effect is handled; deferring the answer is no different from giving it. -/
def heed (w : World σ) (e : Effect) (frames : List Nat) (s : σ) : Straight σ :=
  match w.handler? e with
  | none =>
    failed (.harness (.unmatched ("No handler registered for " ++ e.className) none)) frames s
  | some handler =>
    match handler .idle context s with
    | (.error f, s) => failed f frames s
    | (.ok (.advance v), s) => sent v frames s
    | (.ok (.defer v _ _), s) => given v frames s
    | (.ok (.invalid v), s) =>
      failed (.harness (.plain ("Handler for " ++ e.className ++ " returned " ++ v.repr))) frames s

/-- One step. -/
def step (w : World σ) : Straight σ → Straight σ
  | ⟨.resume signal, g :: frames, s⟩ =>
    match w.resume .idle g signal s with
    | (.yielded x, s) => ⟨.ask x, g :: frames, s⟩
    | (.returned v, s) => sent v frames s
    | (.raised e, s) => thrown e frames s
  | ⟨.ask (.generator g), frames, s⟩ => sent .null (g :: frames) s
  | ⟨.ask (.effect (.call fn args kwargs)), frames, s⟩ =>
    match w.plan .idle ⟨fn, args, kwargs⟩ false s with
    | (.error f, s) => failed f frames s
    | (.ok plan, s) => ⟨.make plan ⟨fn, args, kwargs⟩, frames, s⟩
  | ⟨.ask (.effect (.delay _)), frames, s⟩ => sent .null frames s
  | ⟨.ask (.effect e), frames, s⟩ => heed w e frames s
  | ⟨.make plan call, frames, s⟩ =>
    match produce w plan call s with
    | (.error e, s) => failed (.exn e) frames s
    | (.ok v, s) => given v frames s
  | q => q

section Step

variable {w : World σ} {call : Call} {plan : CallPlan} {frames : List Nat} {s s' : σ}

theorem step_call_refused {f : Failure} (h : w.plan .idle call false s = (.error f, s')) :
    step w ⟨.ask (.effect (.call call.fn call.args call.kwargs)), frames, s⟩ =
      failed f frames s' := by
  simp only [step, h]

theorem step_call_planned (h : w.plan .idle call false s = (.ok plan, s')) :
    step w ⟨.ask (.effect (.call call.fn call.args call.kwargs)), frames, s⟩ =
      ⟨.make plan call, frames, s'⟩ := by
  simp only [step, h]

theorem step_make_raised {e : Exn} (h : produce w plan call s = (.error e, s')) :
    step w ⟨.make plan call, frames, s⟩ = failed (.exn e) frames s' := by
  simp only [step, h]

theorem step_make_given {v : Value} (h : produce w plan call s = (.ok v, s')) :
    step w ⟨.make plan call, frames, s⟩ = given v frames s' := by
  simp only [step, h]

end Step

inductive Over : Straight σ → Prop
  | ended (signal : Signal) (s : σ) : Over ⟨.resume signal, [], s⟩
  | refused (f : Failure) (frames : List Nat) (s : σ) : Over ⟨.refused f, frames, s⟩

theorem step_of_over (w : World σ) {q : Straight σ} (h : q.Over) : q.step w = q := by
  cases h <;> rfl

def Leads (w : World σ) (q q' : Straight σ) : Prop := ∃ k, (step w)^[k] q = q'

namespace Leads

variable {w : World σ} {q q' q'' : Straight σ}

protected theorem refl (q : Straight σ) : Leads w q q := ⟨0, rfl⟩

protected theorem trans (h : Leads w q q') (h' : Leads w q' q'') : Leads w q q'' := by
  obtain ⟨k, rfl⟩ := h
  obtain ⟨l, rfl⟩ := h'
  exact ⟨l + k, Function.iterate_add_apply ..⟩

theorem one (h : q.step w = q') : Leads w q q' := ⟨1, h⟩

/-- A program that is over goes no further. -/
theorem eq_of_over (h : Leads w q q') (hq : q.Over) : q' = q := by
  obtain ⟨k, rfl⟩ := h
  exact Function.iterate_fixed (step_of_over w hq) k

/-- **A program ends in one way only.** -/
theorem unique (h : Leads w q q') (h' : Leads w q q'') (hq' : q'.Over) (hq'' : q''.Over) :
    q' = q'' := by
  obtain ⟨k, hk⟩ := h
  obtain ⟨l, hl⟩ := h'
  have hmeet : ∀ {k l : Nat} {a b : Straight σ}, k ≤ l → (step w)^[k] q = a → (step w)^[l] q = b →
      a.Over → b = a := by
    intro k l a b hle ha hb hover
    obtain ⟨d, rfl⟩ := Nat.exists_eq_add_of_le' hle
    rw [Function.iterate_add_apply, ha] at hb
    exact eq_of_over ⟨d, hb⟩ hover
  rcases Nat.le_total k l with hle | hle
  · exact (hmeet hle hk hl hq').symm
  · exact hmeet hle hl hk hq''

end Leads

end Straight

/-! ### Worlds that answer alike -/

structure Matches {α : Type} (alike : σ → σ → Prop) (x y : α × σ) : Prop where
  answer : x.1 = y.1
  state : alike x.2 y.2

/-- The world `v` answers sequential code whatever it is shown of the run, as `w` does when it is
shown nothing; states are alike if the code cannot tell them apart. The code raises exceptions of
the given classes only, and asks for the given effects only: nothing is said of the answers to
others. -/
structure World.FollowsWithin (raisable : ErrorClass → Bool) (asked : Effect → Prop) (v w : World σ)
    (alike : σ → σ → Prop) : Prop where
  resumes : ∀ {s u : σ} (view : View) (g : Nat) {signal : Signal}, alike s u →
    signal.Within raisable →
    Matches alike (v.resume view g signal s) (w.resume .idle g signal u)
  yields : ∀ {s u : σ} (view : View) (g : Nat) {signal : Signal} {x : Value}, alike s u →
    signal.Within raisable → (v.resume view g signal s).1 = .yielded x → x.Sequential asked
  raises : ∀ {s u : σ} (view : View) (g : Nat) {signal : Signal} {e : Exn}, alike s u →
    signal.Within raisable → (v.resume view g signal s).1 = .raised e → raisable e.kind = true
  invokes : ∀ {s u : σ} (view : View) (call : Call), asked (.call call.fn call.args call.kwargs) →
    alike s u → Matches alike (v.invoke view call s) (w.invoke .idle call u)
  plans : ∀ {s u : σ} (view : View) (call : Call), asked (.call call.fn call.args call.kwargs) →
    alike s u →
    Agree CallPlan.SameButWait (v.plan view call false s).1 (w.plan .idle call false u).1 ∧
      alike (v.plan view call false s).2 (w.plan .idle call false u).2
  handlers : ∀ e : Effect, v.handler? e = none ↔ w.handler? e = none
  handles : ∀ {e : Effect} {h h' : View → Context → σ → Except Failure Reaction × σ} {s u : σ}
    (view : View) (context : Context), v.handler? e = some h → w.handler? e = some h' →
    e.kind = .external → asked e → context.inComposite = false → alike s u →
    Agree (· = ·) (h view context s).1 (h' .idle Straight.context u).1 ∧
      alike (h view context s).2 (h' .idle Straight.context u).2
  /-- An answer that is no reaction can be shown in the failure that it is. -/
  shows : ∀ {e : Effect} {h : View → Context → σ → Except Failure Reaction × σ} {s u : σ}
    (view : View) (context : Context) {x : Value}, v.handler? e = some h → e.kind = .external →
    asked e → context.inComposite = false → alike s u → (h view context s).1 = .ok (.invalid x) →
    x.hasLong = false

/-- Nothing is raised but what may be caught. -/
abbrev World.Follows (asked : Effect → Prop) (v w : World σ) (alike : σ → σ → Prop) : Prop :=
  v.FollowsWithin ErrorClass.isOrdinary asked w alike

/-! ### A coroutine goes its part of the way -/

/-- Where a coroutine gets is where the program gets that has further generators below it. -/
inductive Progress.Shows (asked : Effect → Prop) (alike : σ → σ → Prop) (below : List Nat) :
    Progress × List Nat × σ → Straight σ → Prop
  | suspended {x : Value} {fs : List Nat} {s u : σ}
      (sequential : x.Sequential asked) (live : fs ≠ [])
      (same : alike s u) : Shows asked alike below (.suspended x, fs, s) ⟨.ask x, fs ++ below, u⟩
  | finished (v : Value) (fs : List Nat) {s u : σ} (same : alike s u) :
      Shows asked alike below (.finished v, fs, s) (.sent v below u)
  | raised {e : Exn} (fs : List Nat) {s u : σ}
      (ordinary : e.kind.isOrdinary = true) (same : alike s u) :
      Shows asked alike below (.raised e, fs, s) (.thrown e below u)

theorem ErrorClass.not_isFatal_of_isOrdinary {c : ErrorClass} (h : c.isOrdinary = true) :
    c.isFatal = false := by
  simp only [ErrorClass.isOrdinary, Bool.and_eq_true, Bool.not_eq_true'] at h
  exact h.1

/-- **A coroutine is a stretch of the program's stack**: it gets as far as the program does before
anything below the coroutine is resumed. -/
theorem Coroutine.advance_shows {asked : Effect → Prop} {v w : World σ} {alike : σ → σ → Prop}
    (hv : v.Follows asked w alike)
    (view : View) (spent : Exn) (below : List Nat) {fs : List Nat}
    (live : fs ≠ []) {signal : Signal}
    (hs : signal.Within ErrorClass.isOrdinary) {s u : σ} (same : alike s u) :
    ∃ q, Straight.Leads w ⟨.resume signal, fs ++ below, u⟩ q ∧
      Progress.Shows asked alike below (Coroutine.advance (v.resume view) spent signal fs s) q := by
  induction fs generalizing signal s u with
  | nil => exact (live rfl).elim
  | cons g fs ih =>
    have hm := hv.resumes view g same hs
    have hy := fun x => hv.yields (x := x) view g same hs
    have hr := fun e => hv.raises (e := e) view g same hs
    have hstep : Straight.step w ⟨.resume signal, g :: (fs ++ below), u⟩ =
        match w.resume .idle g signal u with
        | (.yielded x, s) => ⟨.ask x, g :: (fs ++ below), s⟩
        | (.returned v, s) => .sent v (fs ++ below) s
        | (.raised e, s) => .thrown e (fs ++ below) s := rfl
    rw [advance, List.cons_append]
    generalize v.resume view g signal s = x at hm hy hr ⊢
    generalize w.resume .idle g signal u = y at hm hstep
    obtain ⟨a, s'⟩ := x
    obtain ⟨b, u'⟩ := y
    obtain ⟨ha, same'⟩ := hm
    obtain rfl : a = b := ha
    cases a with
    | yielded x => exact ⟨_, .one hstep, .suspended (hy x rfl) (List.cons_ne_nil _ _) same'⟩
    | returned v =>
      dsimp only at hstep ⊢
      cases fs with
      | nil => exact ⟨_, .one hstep, .finished v [] same'⟩
      | cons g' fs =>
        have within : (Signal.send v).Within ErrorClass.isOrdinary := trivial
        obtain ⟨q, hq, hshows⟩ := ih (List.cons_ne_nil _ _) within same'
        exact ⟨q, .trans (.one hstep) hq, hshows⟩
    | raised e =>
      have ordinary := hr e rfl
      dsimp only at hstep ⊢
      rw [ErrorClass.not_isFatal_of_isOrdinary ordinary]
      cases fs with
      | nil => exact ⟨_, .one hstep, .raised [] ordinary same'⟩
      | cons g' fs =>
        have within : (Signal.throw e).Within ErrorClass.isOrdinary := ordinary
        obtain ⟨q, hq, hshows⟩ := ih (List.cons_ne_nil _ _) within same'
        exact ⟨q, .trans (.one hstep) hq, hshows⟩

end Rehearsal
