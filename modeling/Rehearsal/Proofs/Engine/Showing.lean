import Rehearsal.Proofs.Engine.Counting
import Rehearsal.Proofs.Engine.Regular
import Rehearsal.Proofs.Engine.Straight
import Rehearsal.Proofs.Task.Chain

/-!
# What a run shows of its program

A configuration of a sequential program shows where the program stands: its unfinished tasks form a
chain, and the generators of the chain together are the stack of the program run straight through.
`Shows` has one constructor for each activity. Here it is kept by the steps that work on the last
task of the chain while it is driven: its coroutine is resumed, and what it yields is interpreted.
-/
namespace Rehearsal

variable {σ : Type} {o : RunOptions} {asked : Effect → Prop} {alike : σ → σ → Prop}

/-- What a task that has not been started is going to do for the program below it. -/
inductive Task.Owes (asked : Effect → Prop) (t : Task) (frames : List Nat) (u : σ) :
    Straight σ → Prop
  | delay (entry : t.entry = none) (result : t.result = .null) :
      Owes asked t frames u (.sent .null frames u)
  | constant {v : Value} (entry : t.entry = some (.constant v)) :
      Owes asked t frames u (.given v frames u)
  | planned {plan plan' : CallPlan} {call : Call} (entry : t.entry = some (.planned plan call))
      (asks : asked (.call call.fn call.args call.kwargs)) (same : plan.SameButWait plan') :
      Owes asked t frames u ⟨.make plan' call, frames, u⟩

namespace Registry

structure Leads (r : Registry) (a : Nat) (fs frames : List Nat) : Prop where
  task : ∃ t, r.Last a t frames ∧ t.coroutine = some ⟨fs, true⟩
  live : fs ≠ []

/-- Task `a`, the last of the chain, has not been started. -/
structure Due (asked : Effect → Prop) (r : Registry) (a : Nat) (u : σ) (q : Straight σ) : Prop where
  task : ∃ t frames, r.Last a t frames ∧ t.interruption = none ∧ t.coroutine = none ∧
    t.Owes asked frames u q

/-- Task `a` is about to be blocked behind task `d`, which has just been made for it. -/
inductive Blocks (asked : Effect → Prop) (r : Registry) (a d : Nat) (u : σ) (q : Straight σ) : Prop
  | mk {t td : Task} {fs above frames : List Nat} (lt : a < d) (task : r.get? a = some t)
      (coroutine : t.coroutine = some ⟨fs, true⟩) (live : fs ≠ []) (kept : t.abandoned = false)
      (chain : r.Chain a above frames) (child : r.get? d = some td) (undone : td.done = false)
      (attached : td.abandoned = false) (free : td.interruption = none) (bare : td.coroutine = none)
      (owes : td.Owes asked (fs ++ frames) u q) (alone : r.Alone (d :: a :: above))

/-- Nothing is being driven: a task is to be started, or the end of one is to be told. -/
inductive Rests (asked : Effect → Prop) (alike : σ → σ → Prop) (r : Registry) (s : σ) :
    Straight σ → Prop
  | due {a : Nat} {u : σ} {q : Straight σ} (due : r.Due asked a u q) (same : alike s u) :
      Rests asked alike r s q
  | told {a : Nat} {t : Task} {above frames : List Nat} {u : σ} (task : r.get? a = some t)
      (done : t.done = true) (chain : r.Chain a above frames) (alone : r.Alone above)
      (same : alike s u) : Rests asked alike r s (.sent t.result frames u)

end Registry

/-- The main loop, in the middle of a batch or a round. -/
inductive Base : List Frame → Prop
  | batch (rest : List Nat) : Base [.batch rest, .loop 0]
  | round (ids rest : List Nat) : Base [.round ids rest, .loop 0]

inductive Idle : List Frame → Control → Prop
  | base {stack : List Frame} (base : Base stack) : Idle stack .done
  | looking : Idle [.loop 0] .done
  | bubbling (ids : List Nat) : Idle [.loop 0] (.bubble ids)

/-- How a run that is given up ends for its program. -/
inductive Failure.Ends : Failure → Straight σ → Prop
  | escaped (e : Exn) (name : Option String) (step : Option Nat) (u : σ) :
      Ends (.harness (.testedCode e (some 0) name step)) (.thrown e [] u)
  | refused {f f' : Failure} (h : f.Alike f') (frames : List Nat) (u : σ) :
      Ends f ⟨.refused f', frames, u⟩

namespace Config

/-- The configuration shows where the program stands. A run past its step limit shows nothing more,
nor does one that cannot write a report. -/
inductive Shows (o : RunOptions) (asked : Effect → Prop) (alike : σ → σ → Prop) :
    Config σ → Straight σ → Prop
  | resting {m : Machine σ} {stack control q} (idle : Idle stack control)
      (rests : m.registry.Rests asked alike m.outer q) : Shows o asked alike ⟨m, stack, control⟩ q
  | selected {m : Machine σ} {stack control a u q} (base : Base stack)
      (picked : control = .runTask a ∨ control = .start a) (due : m.registry.Due asked a u q)
      (same : alike m.outer u) : Shows o asked alike ⟨m, stack, control⟩ q
  | answered {m : Machine σ} {stack a t fs frames pending dependencies u} {v : Value}
      (base : Base stack) (last : m.registry.Last a t frames)
      (coroutine : t.coroutine = some ⟨fs, true⟩) (live : fs ≠ [])
      (answer : t.interruption = some ⟨.generator, pending, dependencies, some (.value v)⟩)
      (same : alike m.outer u) :
      Shows o asked alike ⟨m, stack, .runTask a⟩ (.sent v (fs ++ frames) u)
  | driving {m : Machine σ} {stack a t fs frames started signal u} (base : Base stack)
      (last : m.registry.Last a t frames)
      (coroutine : t.coroutine = some ⟨fs, started⟩) (live : fs ≠ [])
      (fits : started = true ∨ signal = .send .null)
      (ordinary : signal.Within ErrorClass.isOrdinary)
      (same : alike m.outer u) :
      Shows o asked alike ⟨m, stack, .drive a signal⟩ ⟨.resume signal, fs ++ frames, u⟩
  | asking {m : Machine σ} {stack a fs frames x u} (base : Base stack)
      (leads : m.registry.Leads a fs frames) (sequential : x.Sequential asked)
      (same : alike m.outer u) :
      Shows o asked alike ⟨m, .driving a :: stack, .interpret a x false⟩ ⟨.ask x, fs ++ frames, u⟩
  | advancing {m : Machine σ} {stack a fs frames u} (base : Base stack) (v : Value)
      (leads : m.registry.Leads a fs frames) (same : alike m.outer u) :
      Shows o asked alike ⟨m, .driving a :: stack, .answer (.advance v)⟩ (.sent v (fs ++ frames) u)
  | entering {m : Machine σ} {stack a fs frames u} (base : Base stack) (g : Nat)
      (leads : m.registry.Leads a fs frames) (same : alike m.outer u) :
      Shows o asked alike ⟨m, .driving a :: stack, .answer (.enter g)⟩
        (.sent .null (g :: (fs ++ frames)) u)
  | raised {m : Machine σ} {stack a fs frames u} {e : Exn} (base : Base stack)
      (leads : m.registry.Leads a fs frames) (ordinary : e.kind.isOrdinary = true)
      (same : alike m.outer u) :
      Shows o asked alike ⟨m, .driving a :: stack, .raised e⟩ (.thrown e (fs ++ frames) u)
  | blocking {m : Machine σ} {stack a d u q} (base : Base stack)
      (blocks : m.registry.Blocks asked a d u q)
      (same : alike m.outer u) :
      Shows o asked alike ⟨m, .driving a :: stack, .answer (.block (.onChild d))⟩ q
  | completing {m : Machine σ} {stack a t frames u} (base : Base stack) (v : Value)
      (last : m.registry.Last a t frames) (same : alike m.outer u) :
      Shows o asked alike ⟨m, stack, .complete a v⟩ (.sent v frames u)
  | failing {m : Machine σ} {stack a t frames u} (base : Base stack) (e : Exn)
      (last : m.registry.Last a t frames) (same : alike m.outer u) :
      Shows o asked alike ⟨m, stack, .fail a e⟩ (.thrown e frames u)
  | propagating {m : Machine σ} {stack a above frames u} (base : Base stack) (e : Exn)
      (chain : m.registry.Chain a above frames) (alone : m.registry.Alone above)
      (same : alike m.outer u) : Shows o asked alike ⟨m, stack, .propagate a e⟩ (.thrown e frames u)
  | ended {m : Machine σ} {t u} (task : m.registry.get? 0 = some t) (same : alike m.outer u) :
      Shows o asked alike ⟨m, [], .done⟩ (.sent t.result [] u)
  | givenUp {m : Machine σ} {f q} (stack : List Frame) (ends : Failure.Ends f q)
      (same : alike m.outer q.outer) : Shows o asked alike ⟨m, stack, .abort f⟩ q
  | exceeded {c : Config σ} (past : c.Exceeded o) (q : Straight σ) : Shows o asked alike c q
  | unwritten {c : Config σ} (given : c.Unwritten) (q : Straight σ) : Shows o asked alike c q

/-- After a step the configuration shows where the program stands a little later. -/
abbrev Later (o : RunOptions) (asked : Effect → Prop) (alike : σ → σ → Prop) (w : World σ)
    (c : Config σ) (q : Straight σ) : Prop :=
  ∃ q', Straight.Leads w q q' ∧ c.Shows o asked alike q'

end Config

theorem Registry.Blocks.due {r : Registry} {a d : Nat} {u : σ} {q : Straight σ}
    (h : r.Blocks asked a d u q)
    {f : Task → Task} (hi : ∀ t, (f t).interruption = some (.onChild d))
    (hc : ∀ t, (f t).coroutine = t.coroutine) (hk : ∀ t, (f t).abandoned = t.abandoned) :
    (r.modify a f).Due asked d u q := by
  obtain ⟨lt, task, hco, live, kept, chain, child, undone, attached, free, bare, owes, alone⟩ := h
  have around : Registry.Around (· = a) r (r.modify a f) := .modify a f
  have hd : d ≠ a := Nat.ne_of_gt lt
  have chain' := chain.around around fun p hp he => chain.not_mem (he ▸ hp)
  refine ⟨⟨_, _, ⟨(Registry.get?_modify_ne hd).trans child, undone, attached, _,
    .behind lt (Registry.get?_modify_of_eq_some f task) (hi _) ((hc _).trans hco) live
      ((hk _).trans kept) chain', ?_⟩, free, bare, owes⟩⟩
  exact alone.around around fun i hia => hia ▸ List.mem_cons_of_mem _ (List.mem_cons_self ..)

/-! ### What is left of the world's state -/

namespace Machine

variable (m : Machine σ) (o : RunOptions)

@[simp] theorem outer_noteInterrupt (t : Task) : (m.noteInterrupt o t).outer = m.outer := by
  unfold noteInterrupt
  split <;> rfl

@[simp] theorem outer_suspend (t : Nat) (i : Interruption) : (m.suspend o t i).outer = m.outer := by
  unfold suspend
  dsimp only
  split
  · rw [outer_noteInterrupt]
    rfl
  · rfl

end Machine

namespace Config

variable {v w : World σ} {m : Machine σ} {stack : List Frame} {a : Nat} {t : Task}
    {fs frames : List Nat}
  {u : σ} {q q' : Straight σ}

theorem later_halt (base : Base stack) (rests : m.registry.Rests asked alike m.outer q) :
    Later o asked alike w (halt m stack) q := ⟨q, .refl q, .resting (.base base) rests⟩

/-! ### The last task of the chain is resumed -/

/-- A coroutine that is resumed yields, or ends. -/
theorem later_withCoroutine {c : Coroutine} {go : Coroutine → σ → Progress × Coroutine × σ}
    (base : Base stack) (last : m.registry.Last a t frames) (hco : t.coroutine = some c)
    (hq : Straight.Leads w q q')
    (hgo : Progress.Shows asked alike frames
      ((go c m.outer).1, (go c m.outer).2.1.frames, (go c m.outer).2.2) q')
    (hst : ∀ x, (go c m.outer).1 = .suspended x → (go c m.outer).2.1.started = true) :
    Later o asked alike w (withCoroutine m stack a go) q := by
  have hget : m.get? a = some t := last.task
  unfold withCoroutine
  simp only [hget, Option.bind_some, hco]
  generalize go c m.outer = went at hgo hst
  obtain ⟨progress, ⟨fs, started⟩, s⟩ := went
  have last' := last.modify (fun task => { task with coroutine := some ⟨fs, started⟩ }) rfl rfl
  have stopped := last'.modify (fun task => { task with running := false }) rfl rfl
  refine ⟨q', hq, ?_⟩
  cases hgo with
  | @suspended x _ _ _ sequential live same =>
    obtain rfl : started = true := hst x rfl
    exact .asking base ⟨⟨_, last', rfl⟩, live⟩ sequential same
  | finished v _ same => exact .completing base v stopped same
  | @raised e _ _ _ ordinary same =>
    simp only [afterProgress, ordinary, if_true]
    exact .failing base e stopped same

theorem later_resume (base : Base stack) (hv : v.Follows asked w alike)
    {started : Bool} {signal : Signal}
    (last : m.registry.Last a t frames) (hco : t.coroutine = some ⟨fs, started⟩) (live : fs ≠ [])
    (fits : started = true ∨ signal = .send .null) (ordinary : signal.Within ErrorClass.isOrdinary)
    (same : alike m.outer u) (view : View) :
    Later o asked alike w (resumeSeeing v view m stack a signal)
      ⟨.resume signal, fs ++ frames, u⟩ := by
  have hsignal : Coroutine.signalFor ⟨fs, started⟩ signal = signal := by
    rcases fits with rfl | rfl
    · cases signal <;> rfl
    · cases started <;> rfl
  obtain ⟨q, hq, hshows⟩ :=
    Coroutine.advance_shows hv view (Coroutine.spent view.steps) frames live ordinary same
  refine later_withCoroutine base last hco hq ?_ fun _ _ => rfl
  simp only [Coroutine.resume, hsignal]
  exact hshows

/-- The last task goes on with what it has been waiting for. -/
theorem later_goOn (base : Base stack) (hv : v.Follows asked w alike) {signal : Signal}
    (leads : m.registry.Leads a fs frames)
    (ordinary : signal.Within ErrorClass.isOrdinary) (same : alike m.outer u) (view : View) :
    Later o asked alike w (resumeSeeing v view m stack a signal)
      ⟨.resume signal, fs ++ frames, u⟩ := by
  obtain ⟨⟨t, last, hco⟩, live⟩ := leads
  exact later_resume base hv last hco live (Or.inl rfl) ordinary same view

theorem later_enter (base : Base stack) (hv : v.Follows asked w alike) (g : Nat)
    (leads : m.registry.Leads a fs frames)
    (same : alike m.outer u) :
    Later o asked alike w (enter v m stack a g) (.sent .null (g :: (fs ++ frames)) u) := by
  obtain ⟨⟨t, last, hco⟩, live⟩ := leads
  have within : (Signal.send .null).Within ErrorClass.isOrdinary := trivial
  obtain ⟨q, hq, hshows⟩ := Coroutine.advance_shows hv m.view (Coroutine.spent m.view.steps) frames
    (List.cons_ne_nil g fs) within same
  exact later_withCoroutine base last hco hq hshows fun _ _ => rfl

theorem later_drive (base : Base stack) (hv : v.Follows asked w alike)
    {started : Bool} {signal : Signal}
    (last : m.registry.Last a t frames) (hco : t.coroutine = some ⟨fs, started⟩) (live : fs ≠ [])
    (fits : started = true ∨ signal = .send .null) (ordinary : signal.Within ErrorClass.isOrdinary)
    (same : alike m.outer u) :
    Later o asked alike w (drive v m stack a signal) ⟨.resume signal, fs ++ frames, u⟩ :=
  later_resume (m := m.modify a fun task => { task with running := true }) base hv
    (last.modify (fun task => { task with running := true }) rfl rfl) hco live fits ordinary same _

/-- The last task is blocked behind the one made for it, which is then the last. -/
theorem later_block (base : Base stack) {d : Nat} (blocks : m.registry.Blocks asked a d u q)
    (same : alike m.outer u) :
    Later o asked alike w
      (halt ((m.modify a fun task => { task with running := false }).suspend o a (.onChild d))
      stack) q := by
  have hreg :
      ((m.modify a fun task => { task with running := false }).suspend o a (.onChild d)).registry =
      m.registry.modify a fun task => { task with running := false }.block (.onChild d) := by
    rw [Machine.registry_suspend, Machine.registry_modify, Registry.modify_modify]
  refine later_halt base ?_
  rw [hreg, Machine.outer_suspend]
  exact .due (blocks.due (fun _ => rfl) (fun _ => rfl) fun _ => rfl) same

/-! ### What it yields is interpreted -/

theorem shows_failure {f f' : Failure} (base : Base stack) (h : f.Alike f')
    (leads : m.registry.Leads a fs frames)
    (same : alike m.outer u) :
    Shows o asked alike (ofOutcome (.driving a :: stack) (.failure m f))
      (.failed f' (fs ++ frames) u) := by
  have hgiven : ∀ {f f' : Failure}, f.Alike f' →
      Shows o asked alike ⟨m, .driving a :: stack, .abort f⟩ ⟨.refused f', fs ++ frames, u⟩ :=
    fun h => .givenUp _ (.refused h _ _) same
  cases h with
  | exn e =>
    unfold ofOutcome Outcome.failure Failure.control Straight.failed
    dsimp only
    split
    · rename_i ordinary
      exact .raised base leads ordinary same
    · exact hgiven (.exn e)
  | plain message => exact hgiven (.plain message)
  | configuration message => exact hgiven (.configuration message)
  | unmatched message step step' => exact hgiven (.unmatched message step step')

/-- A task is made for the effect, and the last of the chain blocks behind it. -/
theorem shows_onChild (base : Base stack) (name : String) (wait : Wait) (entry : Option Entry)
    (leads : m.registry.Leads a fs frames) (same : alike m.outer u)
    (owes : (Task.fresh m.registry.size name wait (some a) false none entry).Owes
      asked (fs ++ frames) u q) :
    Shows o asked alike
      (ofOutcome (.driving a :: stack) (.answer (m.create name wait (some a) false entry).1
      (.block (.onChild (m.create name wait (some a) false entry).2)))) q := by
  obtain ⟨⟨t, last, hco⟩, live⟩ := leads
  obtain ⟨above, chain, alone⟩ := last.chain
  have hlt := Registry.get?_eq_some_lt last.task
  have around := Registry.Around.create (r := m.registry) name wait hlt false entry
  have hnew := Registry.Forest.get?_create_new (r := m.registry) name wait (some a) false none entry
    (by rintro p ⟨⟩; exact hlt)
  obtain ⟨t', ht', hs⟩ := around.kept (Nat.ne_of_lt hlt) last.task
  have chain' := chain.around around fun p hp =>
    Nat.ne_of_lt (Nat.lt_trans (chain.lt hp) hlt)
  rw [Machine.create_eq]
  exact .blocking base
    (.mk hlt ht' (hs.coroutine.trans hco) live (hs.abandoned.trans last.kept) chain' hnew
    rfl rfl rfl rfl owes (alone.create around)) same

theorem produce_matches (hv : v.Follows asked w alike) {plan plan' : CallPlan}
    (h : plan.SameButWait plan')
    (call : Call) (asks : asked (.call call.fn call.args call.kwargs)) (same : alike m.outer u) :
    (m.produce v plan call).1 = (Straight.produce w plan' call u).1 ∧
      alike (m.produce v plan call).2.outer (Straight.produce w plan' call u).2 := by
  unfold Machine.produce Straight.produce
  rw [h.error, h.invoke, h.output]
  cases plan'.error with
  | some e => exact ⟨rfl, same⟩
  | none =>
    dsimp only
    split
    · have hm := hv.invokes m.view call asks same
      exact ⟨hm.answer, hm.state⟩
    · exact ⟨rfl, same⟩

/-- A value that a call has at once is entered if it is a generator. -/
theorem shows_produced (base : Base stack) (value : Value) (leads : m.registry.Leads a fs frames)
    (same : alike m.outer u) :
    Shows o asked alike (ofOutcome (.driving a :: stack) (m.produced value))
      (.given value (fs ++ frames) u) := by
  cases value with
  | generator g => exact .entering base g leads same
  | _ => exact .advancing base _ leads same

theorem later_interpretCall (base : Base stack) (hv : v.Follows asked w alike) (call : Call)
    (asks : asked (.call call.fn call.args call.kwargs)) (leads : m.registry.Leads a fs frames)
    (same : alike m.outer u) :
    Later o asked alike w (ofOutcome (.driving a :: stack) (m.interpretCall v a call))
      ⟨.ask (.effect (.call call.fn call.args call.kwargs)), fs ++ frames, u⟩ := by
  obtain ⟨hplan, hsame⟩ := hv.plans m.view call asks same
  unfold Machine.interpretCall
  generalize v.plan m.view call false m.outer = planned at hplan hsame
  generalize hasked : w.plan .idle call false u = planned' at hplan hsame
  obtain ⟨answer, s⟩ := planned
  obtain ⟨answer', u'⟩ := planned'
  dsimp only at hplan hsame
  cases hplan with
  | error h =>
    exact ⟨_, .one (Straight.step_call_refused hasked),
      shows_failure (m := { m with outer := s }) base h
      leads hsame⟩
  | @ok plan plan' h =>
    have hask :
        Straight.Leads w ⟨.ask (.effect (.call call.fn call.args call.kwargs)), fs ++ frames, u⟩
        ⟨.make plan' call, fs ++ frames, u'⟩ := .one (Straight.step_call_planned hasked)
    dsimp only
    split
    · -- the call is made at once
      obtain ⟨hvalue, hsame'⟩ := produce_matches (m := { m with outer := s }) hv h call asks hsame
      have hreg := Machine.registry_produce v { m with outer := s } plan call
      generalize Machine.produce v { m with outer := s } plan call = made at hvalue hsame' hreg ⊢
      generalize hmade : Straight.produce w plan' call u' = made' at hvalue hsame'
      obtain ⟨value, m'⟩ := made
      obtain ⟨value', u''⟩ := made'
      obtain rfl : value = value' := hvalue
      have leads' : m'.registry.Leads a fs frames := (hreg : m'.registry = m.registry) ▸ leads
      cases value with
      | error e =>
        exact ⟨_, .trans hask (.one (Straight.step_make_raised hmade)),
          shows_failure base (.exn e) leads' hsame'⟩
      | ok value =>
        exact ⟨_, .trans hask (.one (Straight.step_make_given hmade)),
          shows_produced base value leads' hsame'⟩
    · exact ⟨_, hask,
        shows_onChild (m := { m with outer := s }) base call.name plan.wait _ leads hsame
        (.planned rfl asks h)⟩

theorem later_interpretExternal (base : Base stack) (hv : v.Follows asked w alike) {e : Effect}
    (kind : e.kind = .external) (asks : asked e) (leads : m.registry.Leads a fs frames)
    (same : alike m.outer u) :
    Later o asked alike w (ofOutcome (.driving a :: stack) (m.interpretExternal v a e false))
      ⟨.ask (.effect e), fs ++ frames, u⟩ := by
  have hheed : Straight.step w ⟨.ask (.effect e), fs ++ frames, u⟩ =
      .heed w e (fs ++ frames) u := by
    cases e <;> first | rfl | cases kind
  unfold Machine.interpretExternal
  unfold Straight.heed at hheed
  cases hh : v.handler? e with
  | none =>
    rw [(hv.handlers e).mp hh] at hheed
    exact ⟨_, .one hheed, shows_failure base (.unmatched _ _ _) leads same⟩
  | some handler =>
    cases hh' : w.handler? e with
    | none =>
      rw [(hv.handlers e).mpr hh'] at hh
      cases hh
    | some handler' =>
      obtain ⟨hreaction, hsame⟩ :=
        hv.handles m.view ⟨⟨a, m.nameOf a, true⟩, false, m.steps⟩ hh hh' kind
        asks rfl same
      have writable := fun x => hv.shows m.view ⟨⟨a, m.nameOf a, true⟩, false, m.steps⟩ (x := x) hh
        kind asks rfl same
      rw [hh'] at hheed
      dsimp only at hheed ⊢
      generalize handler m.view ⟨⟨a, m.nameOf a, true⟩, false, m.steps⟩ m.outer = reacted
        at hreaction hsame writable ⊢
      generalize handler' .idle Straight.context u = reacted' at hreaction hsame hheed
      obtain ⟨reaction, s⟩ := reacted
      obtain ⟨reaction', u'⟩ := reacted'
      dsimp only at hreaction hsame
      cases hreaction with
      | error h =>
        exact ⟨_, .one hheed, shows_failure (m := { m with outer := s }) base h leads hsame⟩
      | @ok reaction reaction' h =>
        obtain rfl : reaction = reaction' := h
        refine ⟨_, .one hheed, ?_⟩
        cases reaction with
        | advance value => exact .advancing base value leads hsame
        | defer value wait name =>
          exact shows_onChild (m := { m with outer := s }) base _ wait _ leads hsame (.constant rfl)
        | invalid value =>
          dsimp only
          rw [Outcome.report_of_writable (writable value rfl)]
          exact shows_failure (m := { m with outer := s }) base (.plain _) leads hsame

/-- **An effect is interpreted as the program goes on**, whether a task is made for it or not. -/
theorem later_interpret (base : Base stack) (hv : v.Follows asked w alike) {x : Value}
    (sequential : x.Sequential asked) (leads : m.registry.Leads a fs frames)
    (same : alike m.outer u) :
    Later o asked alike w (ofOutcome (.driving a :: stack) (m.interpret v o a x false))
      ⟨.ask x, fs ++ frames, u⟩ := by
  rcases Nat.lt_or_ge m.steps o.stepLimit with hlt | hle
  · unfold Machine.interpret
    rw [m.tick_of_lt hlt]
    cases sequential with
    | generator g => exact ⟨_, .one rfl, .entering base g leads same⟩
    | @effect e kind asks =>
      cases e with
      | call fn args kwargs =>
        exact later_interpretCall (m := m.counted) base hv ⟨fn, args, kwargs⟩ asks leads same
      | delay ticks =>
        exact ⟨_, .one rfl, shows_onChild (m := m.counted) base "delay"
          (.tick ticks) none leads same
          (.delay rfl rfl)⟩
      | select selector args =>
        exact later_interpretExternal (m := m.counted) base hv rfl asks leads same
      | watch helper pattern =>
        exact later_interpretExternal (m := m.counted) base hv rfl asks leads same
      | put action => exact later_interpretExternal (m := m.counted) base hv rfl asks leads same
      | take pattern => exact later_interpretExternal (m := m.counted) base hv rfl asks leads same
      | question q key => exact later_interpretExternal (m := m.counted) base hv rfl asks leads same
      | _ => simp [Effect.kind] at kind
  · refine ⟨_, .refl _, .exceeded ?_ _⟩
    show o.stepLimit < (m.interpret v o a x false).machine.steps
    rw [m.steps_interpret]
    exact Nat.lt_succ_of_le hle

end Config

end Rehearsal
