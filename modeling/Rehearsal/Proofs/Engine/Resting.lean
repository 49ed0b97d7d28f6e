import Rehearsal.Proofs.Engine.Deadlock
import Rehearsal.Proofs.Engine.Showing

/-!
# The chain between two drives

When the last task of the chain ends, the one before it is told in the next round, or is thrown the
exception at once; when it blocks behind a new task, the main loop picks that task up. None of this
moves the program: it stands where it stood when the task ended, or blocked.
-/
namespace Rehearsal

variable {σ : Type} {o : RunOptions} {asked : Effect → Prop}
    {alike : σ → σ → Prop} {begun : Nat → Prop}

/-- What keeps a chain keeps what a task owes the program. -/
theorem Task.Owes.still {t t' : Task} {frames : List Nat} {u : σ} {q : Straight σ}
    (h : t.Owes asked frames u q) (hs : t.Still t') : t'.Owes asked frames u q := by
  cases h with
  | delay entry result => exact .delay (hs.entry.trans entry) (hs.result.trans result)
  | constant entry => exact .constant (hs.entry.trans entry)
  | planned entry asks same => exact .planned (hs.entry.trans entry) asks same

namespace Core

variable {r : Registry} {reaped : List Nat} {stack : List Frame} {a c : Nat} {t : Task}

/-- A task that is blocked behind one child waits. -/
theorem waiting_onChild (h : Core begun r reaped stack none) (ht : r.get? a = some t)
    (blocked : t.interruption = some (.onChild c)) :
    t.Waiting r (news r reaped stack a) (.onChild c) :=
  h.waiting (Option.some_ne_none a).symm ht blocked (Interruption.onChild_ne_children c)

/-- What a task is blocked behind is its own child. -/
theorem exists_child (h : Core begun r reaped stack none) (ht : r.get? a = some t)
    (blocked : t.interruption = some (.onChild c)) :
    ∃ child, r.get? c = some child ∧ child.parent = some a ∧ child.abandoned = false := by
  have owned := (h.waiting_onChild ht blocked).awaits.owned (Interruption.onChild_ne_join c)
  rw [h.forest.id_eq ht] at owned
  exact owned c (List.mem_singleton.mpr rfl)

end Core

namespace Registry

variable {r r' : Registry} {a : Nat} {t t' : Task} {above frames : List Nat}
    {s u : σ} {q : Straight σ}

namespace Last

/-- The last task is over. -/
theorem finish (h : r.Last a t frames) (hr : Around (· = a) r r') (ht' : r'.get? a = some t')
    (hd : t'.done = true) : ∃ above, r'.Chain a above frames ∧ r'.Alone above := by
  obtain ⟨above, chain, alone⟩ := h.chain
  exact ⟨above, chain.around hr fun p hp he => chain.not_mem (he ▸ hp), alone.finish hr ht' hd⟩

/-- Nothing is touched. -/
theorem still (h : r.Last a t frames) (hr : Around (fun _ => False) r r') :
    ∃ t', r'.Last a t' frames ∧ t.Still t' := by
  obtain ⟨above, chain, alone⟩ := h.chain
  obtain ⟨t', ht', hs⟩ := hr.kept id h.task
  exact ⟨t', ⟨ht', hs.done.trans h.undone, hs.abandoned.trans h.kept, above,
    chain.around hr fun _ _ => id, alone.around hr fun _ => False.elim⟩, hs⟩

/-- The last task has no children to wait for. -/
theorem live_eq_nil (h : r.Last a t frames) (hf : r.Forest) : r.live t = [] :=
  List.filter_eq_nil_iff.mpr fun c hc => by simp [h.childless hf hc]

/-- Whatever is changed about the last task but its place, ownership stays a forest. -/
theorem forest_modify (h : r.Last a t frames) (hf : r.Forest) (f : Task → Task)
    (hid : (f t).id = t.id)
    (hp : (f t).parent = t.parent) (hdet : (f t).detached = t.detached) (hd : (f t).done = t.done)
    (hc : (f t).children = t.children) : (r.modify a f).Forest :=
  hf.modify h.task (.of_unfinished hid hp hdet h.undone (hd.trans h.undone) hc)

end Last

theorem Rests.still (h : r.Rests asked alike s q) (hr : Around (fun _ => False) r r') :
    r'.Rests asked alike s q := by
  cases h with
  | due due same =>
    obtain ⟨t, frames, last, free, bare, owes⟩ := due
    obtain ⟨t', last', hs⟩ := last.still hr
    exact .due
      ⟨t', frames, last', hs.interruption.trans free, hs.coroutine.trans bare, owes.still hs⟩
      same
  | told task done chain alone same =>
    obtain ⟨t', task', hs⟩ := hr.kept id task
    rw [← hs.result]
    exact .told task' (hs.done.trans done) (chain.around hr fun _ _ => id)
      (alone.around hr fun _ => False.elim) same

end Registry

namespace Machine

variable {m : Machine σ} {o : RunOptions} {a : Nat} {t : Task} {frames : List Nat}

@[simp] theorem outer_holdForChildren (m : Machine σ) (o : RunOptions) (a : Nat) (held : Pending) :
    (m.holdForChildren o a held).2.outer = m.outer := by
  unfold holdForChildren
  split
  · rfl
  · dsimp only
    split
    · rfl
    · rw [outer_suspend]
      rfl

@[simp] theorem outer_wrapUp (m : Machine σ) (o : RunOptions) (a : Nat)
    (held : Pending) (v : Value) :
    (m.wrapUp o a held v).outer = m.outer := by
  have h := m.outer_holdForChildren o a held
  unfold wrapUp
  generalize m.holdForChildren o a held = outcome at h ⊢
  obtain ⟨ok, m'⟩ := outcome
  cases ok <;> exact h

/-- The last task has nothing to wait for when it ends. -/
theorem wrapUp_last (o : RunOptions) (forest : m.registry.Forest)
    (last : m.registry.Last a t frames)
    (held : Pending) (v : Value) :
    ∃ t' above, (m.wrapUp o a held v).registry.get? a = some t' ∧ t'.done = true ∧ t'.result = v ∧
      (m.wrapUp o a held v).registry.Chain a above frames ∧
      (m.wrapUp o a held v).registry.Alone above := by
  unfold wrapUp
  rcases holdForChildren_cases o last.task held with ⟨_, _, hl, _⟩ | ⟨m', he, _, hm⟩
  · exact (hl (last.live_eq_nil forest)).elim
  · simp only [he, registry_finalize, hm]
    have around : Registry.Around (· = a) m.registry
        (((m.registry.modify a fun u => { u with children := [] }).modify a (·.finish v)).retire
          a) :=
      .trans (.modify a _) (.trans (.modify a _) (.of_get? (Registry.get?_retire _ _)))
    have hget : (((m.registry.modify a fun u => { u with children := [] }).modify a
        (·.finish v)).retire a).get? a = some (Task.finish { t with children := [] } v) := by
      rw [Registry.get?_retire]
      exact Registry.get?_modify_of_eq_some _ (Registry.get?_modify_of_eq_some _ last.task)
    obtain ⟨above, chain, alone⟩ := last.finish around hget rfl
    exact ⟨_, above, hget, rfl, rfl, chain, alone⟩

end Machine

namespace Config

variable {v w : World σ} {m : Machine σ} {stack : List Frame} {a : Nat} {t : Task}
    {fs frames : List Nat}
  {ids rest : List Nat} {u : σ} {q : Straight σ}

/-! ### The last task of the chain ends -/

theorem shows_complete (base : Base stack) (o : RunOptions)
    (forest : m.registry.Forest) (value : Value)
    (last : m.registry.Last a t frames) (same : alike m.outer u) :
    Shows o asked alike (halt (m.complete o a value) stack) (.sent value frames u) := by
  obtain ⟨t', above, task, done, rfl, chain, alone⟩ :=
    m.wrapUp_last o forest last (.returned value) value
  have same' : alike (m.complete o a t'.result).outer u := (m.outer_wrapUp o a _ _).symm ▸ same
  exact .resting (.base base) (.told task done chain alone same')

theorem shows_fail (base : Base stack) (o : RunOptions) (forest : m.registry.Forest) (e : Exn)
    (last : m.registry.Last a t frames) (hale : t.error = none) (same : alike m.outer u) :
    ∃ m', m.fail o a e = some m' ∧
    Shows o asked alike ⟨m', stack, .propagate a e⟩ (.thrown e frames u) := by
  have failed := last.modify (fun u => { u with error := some e }) rfl rfl
  have flagged :=
    Registry.cancelAll_flagged (m.registry.modify a fun u => { u with error := some e })
    t.children fun _ => False
  obtain ⟨t', last', _⟩ := failed.still (.flagged flagged)
  have forest' : (m.condemn a t.children e).registry.Forest :=
    (last.forest_modify forest (fun u => { u with error := some e }) rfl rfl rfl rfl rfl).flagged
      flagged
  obtain ⟨_, above, _, _, _, chain, alone⟩ :=
    (m.condemn a t.children e).wrapUp_last o forest' last' (.failed e) (.error e)
  refine ⟨_, Machine.fail_eq o last.task hale e, .propagating base e chain alone ?_⟩
  rw [Machine.outer_wrapUp]
  exact same

/-- Who waits for one child is told of its failure directly, and lets go of nobody. -/
theorem abandon_onChild {p : Nat} (task : m.registry.get? p = some t)
    (blocked : t.interruption = some (.onChild a)) :
    abandon m p a = (true, m.modify p fun task => { task with interruption := none }) := by
  have hget : m.get? p = some t := task
  have hwait : (Interruption.onChild a).pending.waitingOn = [a] := rfl
  have hdirect : (Interruption.onChild a).dependencies.contains a = true := by
    simp [Interruption.onChild]
  have hkind : ((Interruption.onChild a).kind = .join ||
      (Interruption.onChild a).kind = .children) = false := rfl
  unfold abandon
  simp only [hget, Option.bind_some, blocked, hkind, Bool.false_eq_true, if_false, hwait, hdirect,
    List.foldl_cons, List.foldl_nil, bne_self_eq_false, Bool.false_and]
  split <;> rfl

/-- **A failure reaches the generators below.** It is thrown into the task before in the chain, or
ends the run. -/
theorem shows_propagate (base : Base stack) (o : RunOptions) {e : Exn}
    (core : Core begun m.registry [] stack none) (task : m.registry.get? a = some t)
    (root : ∃ u, m.registry.get? 0 = some u ∧ u.detached = false)
    (ordinary : e.kind.isOrdinary = true)
    {above : List Nat} (chain : m.registry.Chain a above frames) (alone : m.registry.Alone above)
    (same : alike m.outer u) :
    Shows o asked alike (propagate o m stack a e) (.thrown e frames u) := by
  have hget : m.get? a = some t := task
  cases chain with
  | root =>
    have hparent : t.parent = none := by
      cases hp : t.parent with
      | none => rfl
      | some p => exact absurd (core.forest.parent_lt task hp) (Nat.not_lt_zero p)
    obtain ⟨t₀, ht₀, attached⟩ := root
    rw [task, Option.some.injEq] at ht₀
    unfold propagate
    simp only [hget, ht₀, attached, Bool.false_and, Bool.false_eq_true, if_false]
    rw [← ht₀, hparent, core.forest.id_eq task]
    exact .givenUp stack (.escaped e _ _ u) same
  | @behind _ p tp fs above outer _ waits blocked coroutine live kept chain =>
    have waiting := core.waiting_onChild waits blocked
    obtain ⟨t', ht', hparent, ha⟩ := core.exists_child waits blocked
    rw [task, Option.some.injEq] at ht'
    subst ht'
    rw [propagate_eq o e hget hparent ha waits waiting.running waiting.error kept,
      abandon_onChild waits blocked]
    have last : m.registry.Last p tp outer := ⟨waits, waiting.done, kept, above, chain, alone⟩
    simp only [coroutine, Option.isNone_some, Bool.false_eq_true, if_false, if_true]
    exact .driving base
      (last.modify (fun task => { task with interruption := none }) rfl rfl) coroutine
      live (Or.inl rfl) ordinary same

/-! ### A task is picked up -/

/-- What is produced for a task is what the program is given. -/
theorem shows_afterEntry (base : Base stack) (o : RunOptions) (forest : m.registry.Forest)
    (last : m.registry.Last a t frames) (same : alike m.outer u) (produced : Except Exn Value) :
    Shows o asked alike (afterEntry o m stack a produced)
      (match produced with
        | .error e => .failed (.exn e) frames u
        | .ok value => .given value frames u) := by
  cases produced with
  | error e =>
    unfold afterEntry Straight.failed
    dsimp only
    split
    · refine .failing base e ((registry_handling m stack e).symm ▸ last) ?_
      rw [outer_handling]
      exact same
    · exact .givenUp _ (.refused (.exn e) _ _) same
  | ok value =>
    cases value with
    | generator g =>
      have last' :=
        last.modify (fun task => { task with coroutine := some (.ofGenerator g) }) rfl rfl
      exact .driving base last' rfl (List.cons_ne_nil g []) (Or.inr rfl) trivial same
    | _ => exact shows_complete base o forest _ last same

/-- A task that is started does for the program what it owes. -/
theorem later_start (base : Base stack) (hv : v.Follows asked w alike) (o : RunOptions)
    (forest : m.registry.Forest) (due : m.registry.Due asked a u q) (same : alike m.outer u) :
    Later o asked alike w (start v o m stack a) q := by
  obtain ⟨t, frames, last, _, _, owes⟩ := due
  have hget : m.get? a = some t := last.task
  have last' := last.modify (fun task => { task with entry := none }) rfl rfl
  have forest' :=
    last.forest_modify forest (fun task => { task with entry := none }) rfl rfl rfl rfl rfl
  cases owes with
  | delay entry result =>
    unfold start
    simp only [hget, entry, result]
    exact ⟨_, .refl _, shows_complete base o forest' .null last' same⟩
  | constant entry =>
    rw [start_eq v o hget entry]
    exact ⟨_, .refl _,
      shows_afterEntry (m := m.modify a fun task => { task with entry := none }) base o
      forest' last' same (.ok _)⟩
  | @planned plan plan' call entry asks h =>
    rw [start_eq v o hget entry]
    obtain ⟨hvalue, same'⟩ := produce_matches
      (m := m.modify a fun task => { task with entry := none }) hv h call asks same
    have hreg :=
      Machine.registry_produce v (m.modify a fun task => { task with entry := none }) plan call
    dsimp only
    generalize Machine.produce v (m.modify a fun task => { task with entry := none }) plan call =
      made
      at hvalue same' hreg ⊢
    generalize hmade : Straight.produce w plan' call u = made' at hvalue same'
    obtain ⟨produced, m'⟩ := made
    obtain ⟨produced', u'⟩ := made'
    obtain rfl : produced = produced' := hvalue
    have hreg' : m'.registry = m.registry.modify a fun task => { task with entry := none } := hreg
    rw [← hreg'] at forest' last'
    cases produced with
    | error e =>
      exact ⟨_, .one (Straight.step_make_raised hmade),
        shows_afterEntry base o forest' last' same' (.error e)⟩
    | ok value =>
      exact ⟨_, .one (Straight.step_make_given hmade),
        shows_afterEntry base o forest' last' same' (.ok value)⟩

theorem shows_runTask_due (base : Base stack) (due : m.registry.Due asked a u q)
    (same : alike m.outer u) :
    Shows o asked alike (runTask m stack a) q := by
  obtain ⟨t, _, last, free, _, _⟩ := id due
  have hget : m.get? a = some t := last.task
  unfold runTask
  simp only [hget, free]
  exact .selected base (Or.inr rfl) due same

theorem shows_runTask_answered (base : Base stack) {pending : Pending} {dependencies : List Nat}
    {value : Value} (last : m.registry.Last a t frames) (coroutine : t.coroutine = some ⟨fs, true⟩)
    (live : fs ≠ [])
    (answer : t.interruption = some ⟨.generator, pending, dependencies, some (.value value)⟩)
    (same : alike m.outer u) :
    Shows o asked alike (runTask m stack a) (.sent value (fs ++ frames) u) := by
  have hget : m.get? a = some t := last.task
  unfold runTask
  simp only [hget, answer, reduceCtorEq, if_false, coroutine,
    Option.isNone_some, Bool.false_eq_true]
  exact .driving base
    (last.modify (fun task => { task with interruption := none }) rfl rfl) coroutine live
    (Or.inl rfl) trivial same

end Config

end Rehearsal
