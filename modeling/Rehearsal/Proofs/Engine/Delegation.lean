import Rehearsal.Proofs.Engine.Refusing

/-!
# Frames and delegation

A generator that yields another one, or a call that makes one at once, has it entered as a frame:
the scheduler resumes the frame on top, and hands what it ends with to the frame below. A generator
that delegates does the same from the outside in: whatever it is resumed with goes to the generator
it delegates to, and only what that one ends with comes back to its own code. `Generators.Delegates`
follows the latter, with the entering of a generator read as delegating to it, and
`Coroutine.Settles` the former. They agree on every dialogue, as long as no generator heeds the
exception that is being handled around it.
-/
namespace Rehearsal

variable {σ : Type}

/-- The view once another step has been counted. -/
def View.counted (view : View) : View := { view with steps := view.steps + 1 }

/-- The generator that a yielded value enters, and the world's state by then. The value is the
generator, or a call that is to be made at once and for real, and makes one. -/
def World.entered? (w : World σ) (view : View) (x : Value) (s : σ) : Option (Nat × σ) :=
  match x with
  | .generator g => some (g, s)
  | .effect (.call fn args kwargs) =>
    match w.plan view ⟨fn, args, kwargs⟩ false s with
    | (.ok plan, s) =>
      if plan.wait = .now ∧ plan.error = none ∧ plan.invoke = true then
        match w.invoke view ⟨fn, args, kwargs⟩ s with
        | (.ok (.generator g), s) => some (g, s)
        | _ => none
      else none
    | _ => none
  | _ => none

/-- What a computation that was resumed comes to: it asks for an effect, and stands where `k` says,
or it ends. The steps that were counted meanwhile show in the view. -/
inductive Reply (κ σ : Type) where
  | asks (x : Value) (k : κ) (view : View) (s : σ)
  | ends (r : Except Exn Value) (view : View) (s : σ)

namespace Reply

variable {κ κ' : Type}

def map (f : κ → κ') : Reply κ σ → Reply κ' σ
  | asks x k view s => asks x (f k) view s
  | ends r view s => ends r view s

def state : Reply κ σ → σ
  | asks _ _ _ s | ends _ _ s => s

def view : Reply κ σ → View
  | asks _ _ view _ | ends _ view _ => view

def handling (around : Option Exn) : Reply κ σ → Reply κ σ
  | asks x k view s => asks x k { view with handled := around } s
  | ends r view s => ends r { view with handled := around } s

end Reply

def Signal.ofEnd : Except Exn Value → Signal
  | .ok v => .send v
  | .error e => .throw e

def Progress.ofEnd : Except Exn Value → Progress
  | .ok v => .finished v
  | .error e => .raised e

/-! ### Frames -/

namespace Coroutine

def standing (started : Bool) : Progress × List Nat × σ → Progress × Coroutine × σ
  | (progress, frames, s) => (progress, ⟨frames, started⟩, s)

theorem enter_eq (w : World σ) (view : View) (c : Coroutine) (g : Nat) (s : σ) :
    c.enter w view g s = standing c.started
      (advance (w.resume view) (spent view.steps) (.send .null) (g :: c.frames) s) := rfl

/-- The scheduler enters one generator after the other, counting a step for each, until the
coroutine asks for something else or ends. -/
inductive Settles (w : World σ) : View → Progress × Coroutine × σ → Reply Coroutine σ → Prop
  | asks {view : View} {x : Value} {c : Coroutine} {s : σ}
      (plain : w.entered? view.counted x s = none) :
      Settles w view (.suspended x, c, s) (.asks x c view s)
  | returns {view : View} {v : Value} {c : Coroutine} {s : σ} :
      Settles w view (.finished v, c, s) (.ends (.ok v) view s)
  | raises {view : View} {e : Exn} {c : Coroutine} {s : σ} (mild : e.kind.isFatal = false) :
      Settles w view (.raised e, c, s) (.ends (.error e) view s)
  | enters {view : View} {x : Value} {c : Coroutine} {s s' : σ} {g : Nat}
      {reply : Reply Coroutine σ}
      (entered : w.entered? view.counted x s = some (g, s'))
      (onward : Settles w view.counted (c.enter w view.counted g s') reply) :
      Settles w view (.suspended x, c, s) reply

/-- Entering only ever counts steps. -/
theorem Settles.steps_le {w : World σ} {view : View} {x : Progress × Coroutine × σ}
    {reply : Reply Coroutine σ} (h : Settles w view x reply) : view.steps ≤ reply.view.steps := by
  induction h with
  | asks | returns | raises => exact Nat.le_refl _
  | enters _ _ ih => exact Nat.le_of_succ_le ih

/-- A coroutine settles on one reply only. -/
theorem Settles.unique {w : World σ} {view : View} {x : Progress × Coroutine × σ}
    {reply reply' : Reply Coroutine σ} (h : Settles w view x reply) (h' : Settles w view x reply') :
    reply = reply' := by
  induction h with
  | asks plain =>
    cases h' with
    | asks => rfl
    | enters entered => exact absurd (plain.symm.trans entered) (by simp)
  | returns | raises =>
    cases h'
    rfl
  | enters entered _ ih =>
    cases h' with
    | asks plain => exact absurd (plain.symm.trans entered) (by simp)
    | enters entered' onward' =>
      cases entered.symm.trans entered'
      exact ih onward'

end Coroutine

/-! ### Delegation -/

/-- Generators as the language runs them, in a world that they make. Where one is suspended it may
itself be handling an exception. -/
structure Generators (σ : Type) where
  world : World σ
  handling : Nat → σ → Option Exn

/-- A generator is resumed while an exception is being handled around it. -/
def Generators.within (p : Generators σ) (around : Option Exn) (view : View) (g : Nat)
    (signal : Signal) (s : σ) : Response × σ :=
  p.world.resume { view with handled := around } g signal s

/-- A chain of generators is resumed, the outermost first, each of them delegating to the next. What
the innermost yields goes straight out; when it ends, the generator that delegates to it goes on by
itself; and a generator that would enter another one delegates to it instead, at the same count of
steps. A generator is entered once and resumed in no other way, so it does not show that one that
delegates counts as running; and it is of no account how deep delegations nest. -/
inductive Generators.Delegates (p : Generators σ) :
    View → Option Exn → List Nat → Signal → σ → Reply (List Nat) σ → Prop
  | asks {view : View} {around : Option Exn} {g : Nat} {signal : Signal} {s s' : σ} {x : Value}
      (resumed : p.within around view g signal s = (.yielded x, s'))
      (plain : p.world.entered? view.counted x s' = none) :
      Delegates p view around [g] signal s (.asks x [g] view s')
  | returns {view : View} {around : Option Exn} {g : Nat} {signal : Signal} {s s' : σ} {v : Value}
      (resumed : p.within around view g signal s = (.returned v, s')) :
      Delegates p view around [g] signal s (.ends (.ok v) view s')
  | raises {view : View} {around : Option Exn} {g : Nat} {signal : Signal} {s s' : σ} {e : Exn}
      (resumed : p.within around view g signal s = (.raised e, s'))
      (mild : e.kind.isFatal = false) :
      Delegates p view around [g] signal s (.ends (.error e) view s')
  | enters {view : View} {around : Option Exn} {g h : Nat} {signal : Signal}
      {s s' s'' : σ} {x : Value}
      {reply : Reply (List Nat) σ} (resumed : p.within around view g signal s = (.yielded x, s'))
      (entered : p.world.entered? view.counted x s' = some (h, s''))
      (onward : Delegates p view.counted around [g, h] (.send .null) s'' reply) :
      Delegates p view around [g] signal s reply
  | passes {view view' : View} {around : Option Exn} {g : Nat}
      {chain chain' : List Nat} {signal : Signal}
      {s s' : σ} {x : Value}
      (inner :
        Delegates p view ((p.handling g s).or around) chain signal s (.asks x chain' view' s')) :
      Delegates p view around (g :: chain) signal s (.asks x (g :: chain') view' s')
  | resumes {view view' : View} {around : Option Exn} {g : Nat} {chain : List Nat} {signal : Signal}
      {s s' : σ} {r : Except Exn Value} {reply : Reply (List Nat) σ}
      (inner : Delegates p view ((p.handling g s).or around) chain signal s (.ends r view' s'))
      (onward : Delegates p view' around [g] (.ofEnd r) s' reply) :
      Delegates p view around (g :: chain) signal s reply

namespace Generators

variable {p : Generators σ} {ok : σ → Prop} {view : View} {around : Option Exn}

/-- In the states that are all right, and that nothing leads out of, no generator heeds the
exception that is being handled around it. -/
structure Heedless (p : Generators σ) (ok : σ → Prop) : Prop where
  within_eq {s : σ} (hs : ok s) (around : Option Exn) (view : View) (g : Nat) (signal : Signal) :
    p.within around view g signal s = p.world.resume view g signal s
  resumed {s : σ} (hs : ok s) (view : View) (g : Nat) (signal : Signal) :
    ok (p.world.resume view g signal s).2
  entered {s s' : σ} (hs : ok s) {view : View} {x : Value} {g : Nat}
    (h : p.world.entered? view x s = some (g, s')) : ok s'
  entered_eq {s : σ} (hs : ok s) (around : Option Exn) (view : View) (x : Value) :
    p.world.entered? { view with handled := around } x s = p.world.entered? view x s

namespace Heedless

theorem keeps (h : p.Heedless ok) {s s' : σ} (hs : ok s) {g : Nat} {signal : Signal} {r : Response}
    (resumed : p.within around view g signal s = (r, s')) : ok s' := by
  have hkept := h.resumed hs view g signal
  rwa [← h.within_eq hs around, resumed] at hkept

end Heedless

namespace Delegates

variable {chain : List Nat} {signal : Signal} {s : σ} {reply : Reply (List Nat) σ}

theorem keeps (heedless : p.Heedless ok)
    (h : p.Delegates view around chain signal s reply) (hs : ok s) :
    ok reply.state := by
  induction h with
  | asks resumed plain => exact heedless.keeps hs resumed
  | returns resumed => exact heedless.keeps hs resumed
  | raises resumed mild => exact heedless.keeps hs resumed
  | enters resumed entered _ ih => exact ih (heedless.entered (heedless.keeps hs resumed) entered)
  | passes _ ih => exact ih hs
  | resumes _ _ ih ih' => exact ih' (ih hs)

/-- Where none heeds it, it does not matter what is being handled around. -/
theorem anywhere (heedless : p.Heedless ok)
    (h : p.Delegates view around chain signal s reply) (hs : ok s)
    (around' : Option Exn) : p.Delegates view around' chain signal s reply := by
  have hmove {around : Option Exn} {view : View} {g : Nat} {signal : Signal}
      {s s' : σ} {r : Response}
      (hs : ok s) (around' : Option Exn) (h : p.within around view g signal s = (r, s')) :
      p.within around' view g signal s = (r, s') := by
    rw [heedless.within_eq hs, ← heedless.within_eq hs around, h]
  induction h generalizing around' with
  | asks resumed plain => exact asks (hmove hs around' resumed) plain
  | returns resumed => exact returns (hmove hs around' resumed)
  | raises resumed mild => exact raises (hmove hs around' resumed) mild
  | enters resumed entered _ ih =>
    exact enters (hmove hs around' resumed) entered
      (ih (heedless.entered (heedless.keeps hs resumed) entered) around')
  | passes _ ih => exact passes (ih hs _)
  | resumes inner _ ih ih' => exact resumes (ih hs _) (ih' (inner.keeps heedless hs) around')

/-! ### From the chain to the frames -/

/-- What a chain comes to, on top of the frames of other generators: when it asks, so does the
coroutine; when it ends, the frames below are handed what it ended with. -/
def Hands (w : World σ) (started : Bool) (below : List Nat) :
    Reply (List Nat) σ → Reply Coroutine σ → Prop
  | .asks x chain view s, reply => reply = .asks x ⟨chain.reverse ++ below, started⟩ view s
  | .ends r view s, reply =>
    if below.isEmpty then reply = .ends r view s
    else Coroutine.Settles w view (Coroutine.standing started (Coroutine.advance (w.resume view)
      (Coroutine.spent view.steps) (.ofEnd r) below s)) reply

/-- The end of the chain is that of the coroutine, or is handed to the frames below. -/
theorem Hands.settles {w : World σ} {started : Bool} {below : List Nat} {r : Except Exn Value}
    {reply : Reply Coroutine σ} (h : Hands w started below (.ends r view s) reply)
    (mild : ∀ e, r = .error e → e.kind.isFatal = false) :
    Coroutine.Settles w view (Coroutine.standing started (if below.isEmpty then (.ofEnd r, [], s)
      else Coroutine.advance (w.resume view) (Coroutine.spent view.steps) (.ofEnd r) below s))
          reply := by
  unfold Hands at h
  dsimp only at h
  split at h
  case isFalse hbelow =>
    rw [if_neg hbelow]
    exact h
  case isTrue hbelow =>
    obtain rfl := h
    rw [if_pos hbelow]
    cases r with
    | ok v => exact .returns
    | error e => exact .raises (mild e rfl)

theorem settles (heedless : p.Heedless ok)
    (h : p.Delegates view around chain signal s reply) (hs : ok s)
    (started : Bool) {below : List Nat} {reply' : Reply Coroutine σ}
    (hands : Hands p.world started below reply reply') :
    Coroutine.Settles p.world view
      (Coroutine.standing started (Coroutine.advance (p.world.resume view)
      (Coroutine.spent view.steps) signal (chain.reverse ++ below) s)) reply' := by
  induction h generalizing below reply' with
  | asks resumed plain =>
    rw [heedless.within_eq hs] at resumed
    obtain rfl := hands
    simp only [List.reverse_singleton, List.singleton_append, Coroutine.advance, resumed]
    exact .asks plain
  | returns resumed =>
    rw [heedless.within_eq hs] at resumed
    simp only [List.reverse_singleton, List.singleton_append, Coroutine.advance, resumed]
    exact hands.settles (fun e he => by cases he)
  | raises resumed mild =>
    rw [heedless.within_eq hs] at resumed
    simp only [List.reverse_singleton, List.singleton_append, Coroutine.advance, resumed, mild]
    exact hands.settles (fun e he => by cases he; exact mild)
  | enters resumed entered _ ih =>
    have hs' := heedless.entered (heedless.keeps hs resumed) entered
    rw [heedless.within_eq hs] at resumed
    simp only [List.reverse_singleton, List.singleton_append, Coroutine.advance, resumed]
    exact .enters entered (ih hs' hands)
  | passes _ ih =>
    rw [List.reverse_cons, List.append_assoc]
    refine ih hs ?_
    simpa [Hands] using hands
  | resumes inner _ ih ih' =>
    rw [List.reverse_cons, List.append_assoc]
    exact ih hs (ih' (inner.keeps heedless hs) hands)

end Delegates

/-! ### From the frames to the chain -/

/-- Where the frames stand, the innermost first, is where a chain stands that comes to this. -/
inductive Comes (p : Generators σ) (view : View) (around : Option Exn) :
    Progress × List Nat × σ → Reply (List Nat) σ → Prop
  | asks {x : Value} {frames : List Nat} {s : σ}
      (plain : p.world.entered? view.counted x s = none) :
      Comes p view around (.suspended x, frames, s) (.asks x frames.reverse view s)
  | returns {v : Value} {frames : List Nat} {s : σ} :
      Comes p view around (.finished v, frames, s) (.ends (.ok v) view s)
  | raises {e : Exn} {frames : List Nat} {s : σ} (mild : e.kind.isFatal = false) :
      Comes p view around (.raised e, frames, s) (.ends (.error e) view s)
  | enters {x : Value} {frames : List Nat} {s s' : σ} {h : Nat} {reply : Reply (List Nat) σ}
      (entered : p.world.entered? view.counted x s = some (h, s'))
      (onward : p.Delegates view.counted around (frames.reverse ++ [h]) (.send .null) s' reply) :
      Comes p view around (.suspended x, frames, s) reply

namespace Delegates

variable {outer : List Nat} {g h : Nat} {signal : Signal} {s s' s'' : σ} {x : Value}
    {r : Except Exn Value}
  {reply : Reply (List Nat) σ}

/-- What the innermost generator yields goes out past all those that delegate to it. -/
theorem asked_under (heedless : p.Heedless ok) (hs : ok s)
    (resumed : p.world.resume view g signal s = (.yielded x, s'))
    (plain : p.world.entered? view.counted x s' = none) :
    p.Delegates view around (outer ++ [g]) signal s (.asks x (outer ++ [g]) view s') := by
  induction outer generalizing around with
  | nil => exact asks ((heedless.within_eq hs around ..).trans resumed) plain
  | cons o outer ih => exact passes ih

/-- A generator that the innermost one enters is the innermost one from then on. -/
theorem entered_under (heedless : p.Heedless ok) (hs : ok s)
    (resumed : p.world.resume view g signal s = (.yielded x, s'))
    (entered : p.world.entered? view.counted x s' = some (h, s''))
    (onward : p.Delegates view.counted around (outer ++ [g, h]) (.send .null) s'' reply) :
    p.Delegates view around (outer ++ [g]) signal s reply := by
  have hs'' : ok s'' := heedless.entered
    (heedless.keeps hs ((heedless.within_eq hs around ..).trans resumed)) entered
  induction outer generalizing around reply with
  | nil => exact enters ((heedless.within_eq hs around ..).trans resumed) entered onward
  | cons o outer ih =>
    generalize hchain : o :: outer ++ [g, h] = chain at onward
    cases onward with
    | passes inner =>
      obtain ⟨rfl, rfl⟩ := List.cons_eq_cons.mp hchain
      exact passes (ih (inner.anywhere heedless hs'' _))
    | resumes inner onward =>
      obtain ⟨rfl, rfl⟩ := List.cons_eq_cons.mp hchain
      exact resumes (ih (inner.anywhere heedless hs'' _)) onward
    | _ => simp at hchain

/-- When the innermost generator ends, the one that delegates to it goes on. -/
theorem ended_under (heedless : p.Heedless ok) (hs' : ok s')
    (ended : ∀ around, p.Delegates view around [g] signal s (.ends r view s'))
    (onward : p.Delegates view around outer (.ofEnd r) s' reply) :
    p.Delegates view around (outer ++ [g]) signal s reply := by
  induction outer generalizing around reply with
  | nil => cases onward
  | cons o outer ih =>
    cases outer with
    | nil => exact resumes (ended _) onward
    | cons o' outer =>
      cases onward with
      | passes inner => exact passes (ih (inner.anywhere heedless hs' _))
      | resumes inner onward => exact resumes (ih (inner.anywhere heedless hs' _)) onward

end Delegates

theorem Heedless.delegates_of_advance (heedless : p.Heedless ok)
    {frames : List Nat} {signal : Signal}
    {s : σ} {reply : Reply (List Nat) σ} (nonempty : frames ≠ []) (hs : ok s)
    (h : p.Comes view around
      (Coroutine.advance (p.world.resume view) (Coroutine.spent view.steps) signal frames s)
        reply) :
    p.Delegates view around frames.reverse signal s reply := by
  induction frames generalizing signal s with
  | nil => exact absurd rfl nonempty
  | cons g below ih =>
    obtain ⟨response, s', hresumed⟩ :
        ∃ response s', p.world.resume view g signal s = (response, s') :=
      ⟨_, _, rfl⟩
    have hwithin (around : Option Exn) : p.within around view g signal s = (response, s') :=
      (heedless.within_eq hs around ..).trans hresumed
    have hs' : ok s' := heedless.keeps hs (hwithin around)
    rw [List.reverse_cons]
    simp only [Coroutine.advance, hresumed] at h
    cases response with
    | yielded x =>
      cases h with
      | asks plain =>
        rw [List.reverse_cons]
        exact .asked_under heedless hs hresumed plain
      | enters entered onward =>
        rw [List.reverse_cons, List.append_assoc] at onward
        exact .entered_under heedless hs hresumed entered onward
    | returned v =>
      cases below with
      | nil =>
        cases h with
        | returns => exact .returns (hwithin around)
      | cons g' below =>
        exact .ended_under heedless hs' (fun _ => .returns (hwithin _))
          (ih (List.cons_ne_nil _ _) hs' h)
    | raised e =>
      dsimp only at h
      split at h
      case isTrue hfatal =>
        cases h with
        | raises mild => exact absurd hfatal (by simp [mild])
      case isFalse hfatal =>
        have mild : e.kind.isFatal = false := by simpa using hfatal
        cases below with
        | nil =>
          cases h with
          | raises => exact .raises (hwithin around) mild
        | cons g' below =>
          exact .ended_under heedless hs' (fun _ => .raises (hwithin _) mild)
            (ih (List.cons_ne_nil _ _) hs' h)

theorem Heedless.keeps_advance (heedless : p.Heedless ok) {frames : List Nat}
    {signal : Signal} {s : σ}
    (hs : ok s) :
    ok (Coroutine.advance (p.world.resume view)
      (Coroutine.spent view.steps) signal frames s).2.2 := by
  induction frames generalizing signal s with
  | nil => exact hs
  | cons g below ih =>
    have hs' := heedless.resumed hs view g signal
    unfold Coroutine.advance
    split
    · rename_i hresumed
      rwa [hresumed] at hs'
    · rename_i hresumed
      rw [hresumed] at hs'
      split
      · exact hs'
      · exact ih hs'
    · rename_i hresumed
      rw [hresumed] at hs'
      split
      · exact hs'
      · split
        · exact hs'
        · exact ih hs'

theorem Heedless.advance_eq (heedless : p.Heedless ok) (around : Option Exn) (spent : Exn)
    {frames : List Nat} {signal : Signal} {s : σ} (hs : ok s) :
    Coroutine.advance (p.world.resume { view with handled := around }) spent signal frames s =
      Coroutine.advance (p.world.resume view) spent signal frames s := by
  induction frames generalizing signal s with
  | nil => rfl
  | cons g below ih =>
    have hs' := heedless.resumed hs view g signal
    have hresume : p.world.resume { view with handled := around } g signal s =
        p.world.resume view g signal s := heedless.within_eq hs around view g signal
    unfold Coroutine.advance
    rw [hresume]
    generalize p.world.resume view g signal s = resumed at hs'
    obtain ⟨response, s'⟩ := resumed
    cases response with
    | yielded => rfl
    | returned => simp only [ih hs']
    | raised => simp only [ih hs']

/-- Where none heeds it, a coroutine settles on the same whatever is being handled. -/
theorem settles_anywhere (heedless : p.Heedless ok)
    {stand : Progress × Coroutine × σ} {reply : Reply Coroutine σ}
    (h : Coroutine.Settles p.world view stand reply) (hs : ok stand.2.2) (around : Option Exn) :
    Coroutine.Settles p.world { view with handled := around } stand (reply.handling around) := by
  induction h with
  | @asks view _ _ _ plain =>
    exact .asks ((heedless.entered_eq hs around view.counted _).trans plain)
  | returns => exact .returns
  | raises mild => exact .raises mild
  | @enters view _ c _ s' g _ entered _ ih =>
    have hs' := heedless.entered hs entered
    have henter : c.enter p.world { view.counted with handled := around } g s' =
        c.enter p.world view.counted g s' := by
      rw [Coroutine.enter_eq, Coroutine.enter_eq]
      exact congrArg (Coroutine.standing c.started) (heedless.advance_eq around _ hs')
    have hkept :
        ok (Coroutine.advance (p.world.resume view.counted) (Coroutine.spent view.counted.steps)
        (.send .null) (g :: c.frames) s').2.2 := heedless.keeps_advance hs'
    exact .enters ((heedless.entered_eq hs around view.counted _).trans entered)
      (henter.symm ▸ ih hkept)

theorem Heedless.comes_of_settles (heedless : p.Heedless ok) {x : Progress × Coroutine × σ}
    {reply : Reply Coroutine σ} (h : Coroutine.Settles p.world view x reply) (around : Option Exn)
    {started : Bool} {stand : Progress × List Nat × σ}
    (hstand : x = Coroutine.standing started stand)
    (hs : ok stand.2.2) :
    ∃ reply', p.Comes view around stand reply' ∧
      reply = reply'.map fun chain => ⟨chain.reverse, started⟩ := by
  induction h generalizing stand with
  | asks plain =>
    obtain ⟨progress, frames, s⟩ := stand
    cases hstand
    exact ⟨_, .asks plain, by simp [Reply.map]⟩
  | returns =>
    obtain ⟨progress, frames, s⟩ := stand
    cases hstand
    exact ⟨_, .returns, rfl⟩
  | raises mild =>
    obtain ⟨progress, frames, s⟩ := stand
    cases hstand
    exact ⟨_, .raises mild, rfl⟩
  | enters entered _ ih =>
    obtain ⟨progress, frames, s⟩ := stand
    cases hstand
    have hs' := heedless.entered hs entered
    obtain ⟨reply', hcomes, rfl⟩ := ih (Coroutine.enter_eq ..) (heedless.keeps_advance hs')
    have honward := heedless.delegates_of_advance (List.cons_ne_nil _ _) hs' hcomes
    rw [List.reverse_cons] at honward
    exact ⟨reply', .enters entered honward, rfl⟩

/-- **A resumed chain and a resumed stack of frames come to the same.** -/
theorem Heedless.settles_iff (heedless : p.Heedless ok) {chain : List Nat} (nonempty : chain ≠ [])
    {signal : Signal} {s : σ} (hs : ok s) {started : Bool} {reply : Reply Coroutine σ}
    (around : Option Exn) :
    Coroutine.Settles p.world view
      (Coroutine.standing started (Coroutine.advance (p.world.resume view)
        (Coroutine.spent view.steps) signal chain.reverse s)) reply ↔
      ∃ reply', p.Delegates view around chain signal s reply' ∧
        reply = reply'.map fun chain => ⟨chain.reverse, started⟩ := by
  constructor
  · intro h
    obtain ⟨reply', hcomes, rfl⟩ :=
      heedless.comes_of_settles h around rfl (heedless.keeps_advance hs)
    have hdelegates := heedless.delegates_of_advance (by simpa using nonempty) hs hcomes
    rw [List.reverse_reverse] at hdelegates
    exact ⟨reply', hdelegates, rfl⟩
  · rintro ⟨reply', hdelegates, rfl⟩
    have hands : Delegates.Hands p.world started [] reply'
        (reply'.map fun chain => ⟨chain.reverse, started⟩) := by
      cases reply' with
      | asks x chain view s => simp [Delegates.Hands, Reply.map]
      | ends r view s => rfl
    have hsettles := hdelegates.settles heedless hs started hands
    rwa [List.append_nil] at hsettles

end Generators

/-! ### Dialogues -/

/-- What a computation is resumed with: the signal, what can be seen of the run by then, and what
has become of the world's state since it asked. -/
structure Input (σ : Type) where
  signal : Signal
  view : View
  meanwhile : σ → σ

/-- What a computation replies to one input after the other, until it ends or there are no more. -/
inductive Dialogue {κ : Type} (answers : Input σ → κ → σ → Reply κ σ → Prop) :
    List (Input σ) → κ → σ → List (Reply Unit σ) → Prop
  | silent {k : κ} {s : σ} : Dialogue answers [] k s []
  | asks {input : Input σ} {inputs : List (Input σ)} {k k' : κ} {x : Value} {view : View} {s s' : σ}
      {replies : List (Reply Unit σ)}
      (answered : answers input k (input.meanwhile s) (.asks x k' view s'))
      (onward : Dialogue answers inputs k' s' replies) :
      Dialogue answers (input :: inputs) k s (.asks x () view s' :: replies)
  | ends {input : Input σ} {inputs : List (Input σ)} {k : κ} {r : Except Exn Value}
      {view : View} {s s' : σ}
      (answered : answers input k (input.meanwhile s) (.ends r view s')) :
      Dialogue answers (input :: inputs) k s [.ends r view s']

/-- The coroutine is resumed, and enters what it comes to. -/
def Coroutine.Answers (w : World σ) (input : Input σ) (c : Coroutine) (s : σ)
    (reply : Reply Coroutine σ) :
    Prop :=
  Settles w input.view (c.resume w input.view input.signal s) reply

/-- A generator and those it delegates to, the outermost first. -/
structure Delegation where
  chain : List Nat
  started : Bool

namespace Delegation

/-- The generators as frames. -/
def coroutine (d : Delegation) : Coroutine := ⟨d.chain.reverse, d.started⟩

end Delegation

/-- The outermost generator is resumed while the exception that the view shows is being handled. -/
def Generators.Answers (p : Generators σ) (input : Input σ) (d : Delegation) (s : σ)
    (reply : Reply Delegation σ) : Prop :=
  ∃ reply', p.Delegates input.view input.view.handled d.chain
    (d.coroutine.signalFor input.signal) s reply' ∧
    reply = reply'.map fun chain => ⟨chain, true⟩

namespace Generators

variable {p : Generators σ} {ok : σ → Prop}

/-- A chain that asks is still a chain. -/
theorem Delegates.nonempty {view view' : View} {around : Option Exn} {chain chain' : List Nat}
    {signal : Signal} {x : Value} {s s' : σ}
    (h : p.Delegates view around chain signal s (.asks x chain' view' s')) : chain' ≠ [] := by
  generalize hreply : Reply.asks x chain' view' s' = reply at h
  induction h with
  | asks | passes =>
    cases hreply
    exact List.cons_ne_nil _ _
  | returns | raises => cases hreply
  | enters _ _ _ ih => exact ih hreply
  | resumes _ _ _ ih => exact ih hreply

/-- What a delegation that asks stands for can be resumed again. -/
theorem Answers.onward (heedless : p.Heedless ok) {input : Input σ} {d d' : Delegation} {x : Value}
    {view : View} {s s' : σ} (h : p.Answers input d s (.asks x d' view s')) (hs : ok s) :
    d'.chain ≠ [] ∧ ok s' := by
  obtain ⟨reply, hdelegates, hreply⟩ := h
  cases reply with
  | ends => cases hreply
  | asks x chain view s =>
    cases hreply
    exact ⟨hdelegates.nonempty, hdelegates.keeps heedless hs⟩

theorem Heedless.answers_iff (heedless : p.Heedless ok) {d : Delegation} (nonempty : d.chain ≠ [])
    (input : Input σ) {s : σ} (hs : ok s) (reply : Reply Coroutine σ) :
    Coroutine.Answers p.world input d.coroutine s reply ↔
      ∃ reply', p.Answers input d s reply' ∧ reply = reply'.map Delegation.coroutine := by
  have hsettles : Coroutine.Answers p.world input d.coroutine s reply ↔ _ :=
    heedless.settles_iff nonempty hs input.view.handled
  refine hsettles.trans ⟨?_, ?_⟩
  · rintro ⟨reply', hdelegates, rfl⟩
    refine ⟨_, ⟨reply', hdelegates, rfl⟩, ?_⟩
    cases reply' <;> rfl
  · rintro ⟨_, ⟨reply', hdelegates, rfl⟩, rfl⟩
    refine ⟨reply', hdelegates, ?_⟩
    cases reply' <;> rfl

/-- **The same dialogues.** -/
theorem Heedless.dialogue_iff (heedless : p.Heedless ok) {inputs : List (Input σ)}
    (decent : ∀ input ∈ inputs, ∀ s, ok s → ok (input.meanwhile s)) {d : Delegation}
    (nonempty : d.chain ≠ []) {s : σ} (hs : ok s) {replies : List (Reply Unit σ)} :
    Dialogue (Coroutine.Answers p.world) inputs d.coroutine s replies ↔
      Dialogue p.Answers inputs d s replies := by
  induction inputs generalizing d s replies with
  | nil =>
    constructor <;> intro h <;> cases h <;> exact .silent
  | cons input inputs ih =>
    have hs' : ok (input.meanwhile s) := decent input (List.mem_cons_self ..) s hs
    have hrest : ∀ input ∈ inputs, ∀ s, ok s → ok (input.meanwhile s) :=
      fun i hi => decent i (List.mem_cons_of_mem _ hi)
    have hiff := heedless.answers_iff nonempty input hs'
    constructor
    · intro h
      cases h with
      | asks answered onward =>
        obtain ⟨reply, hanswers, hreply⟩ := (hiff _).mp answered
        cases reply with
        | ends => cases hreply
        | asks x d' view s' =>
          cases hreply
          obtain ⟨hchain, hok⟩ := hanswers.onward heedless hs'
          exact .asks hanswers ((ih hrest hchain hok).mp onward)
      | ends answered =>
        obtain ⟨reply, hanswers, hreply⟩ := (hiff _).mp answered
        cases reply with
        | asks => cases hreply
        | ends r view s' =>
          cases hreply
          exact .ends hanswers
    · intro h
      cases h with
      | asks answered onward =>
        obtain ⟨hchain, hok⟩ := answered.onward heedless hs'
        exact .asks ((hiff _).mpr ⟨_, answered, rfl⟩) ((ih hrest hchain hok).mpr onward)
      | ends answered => exact .ends ((hiff _).mpr ⟨_, answered, rfl⟩)

end Generators

end Rehearsal
