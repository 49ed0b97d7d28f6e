import Rehearsal.Proofs.Engine.Recording
import Rehearsal.Proofs.Engine.Resting
import Rehearsal.Proofs.Engine.Termination

/-!
# Deferring a call does not change a sequential program

A run of a sequential program shows, step by step, where the program stands that is run straight
through. So runs in worlds that differ only in when calls are made pass through the same
resumptions, invocations and reactions, and end the same way.
-/
namespace Rehearsal

variable {σ : Type} {o : RunOptions} {asked : Effect → Prop}
    {alike : σ → σ → Prop} {begun : Nat → Prop}

namespace Registry

variable {r : Registry} {a c : Nat} {u : Task} {above frames : List Nat}

/-- A chain begins with the root. -/
theorem Chain.root_mem (chain : r.Chain a above frames) : 0 ∈ a :: above := by
  induction chain with
  | root => exact List.mem_singleton.mpr rfl
  | behind _ _ _ _ _ _ _ ih => exact List.mem_cons_of_mem _ ih

/-- The tasks of a chain are unfinished. -/
theorem Chain.undone {t : Task} {stack : List Frame} (chain : r.Chain a above frames)
    (core : Core begun r [] stack none) (hc : c ∈ above) (ht : r.get? c = some t) :
    t.done = false := by
  obtain ⟨t', d, ht', blocked, _⟩ := chain.waits hc
  rw [ht, Option.some.injEq] at ht'
  subst ht'
  exact (core.waiting_onChild ht blocked).done

/-- An interruption is put in its own place. -/
theorem Around.awaiting {touched : Nat → Prop} {i : Interruption} (ht : r.get? a = some u)
    (hi : u.interruption = some i) : Around touched r (r.modify a (·.awaiting i)) := by
  refine .modify_still fun t ht' => ?_
  rw [ht, Option.some.injEq] at ht'
  subst ht'
  exact ⟨rfl, rfl, hi.symm, rfl, rfl, rfl⟩

theorem Around.removeChildren {touched : Nat → Prop} (ids : List Nat) :
    Around touched r (r.modify a (·.removeChildren ids)) :=
  .modify_still fun _ _ => ⟨rfl, rfl, rfl, rfl, rfl, rfl⟩

end Registry

namespace Config

variable {v w : World σ} {m : Machine σ} {stack : List Frame} {a t : Nat}
    {u : Task} {ids rest : List Nat}
  {q : Straight σ}

/-! ### Rounds -/

/-- The turn of a task that waits for one child. -/
theorem continueRound_onChild {c : Nat} {child : Task} (task : m.get? t = some u)
    (undone : u.done = false)
    (blocked : u.interruption = some (.onChild c)) (tier : u.wait = .tier .generator)
    (idle : u.running = false) (hc : m.get? c = some child) (hne : c ≠ t) :
    continueRound m stack ids (t :: rest) =
      if ids.contains c then
        ⟨(m.modify t fun task => task.removeChildren ids).modify t fun task =>
          task.awaiting ((Interruption.onChild c).resolve (.value child.result)),
          .round ids rest :: stack, .runTask t⟩
      else halt ((m.modify t fun task => task.removeChildren ids).modify t fun task =>
        task.awaiting (.onChild c)) (.round ids rest :: stack) := by
  have hchild : (m.modify t fun task => task.removeChildren ids).registry.get? c = some child :=
    (Registry.get?_modify_ne hne).trans hc
  have hsettle :
      (m.modify t fun task => task.removeChildren ids).registry.settle t (.onChild c) ids =
      if ids.contains c then .ok (true, (Interruption.onChild c).resolve (.value child.result),
        (m.modify t fun task => task.removeChildren ids).registry)
      else .ok (false, .onChild c, (m.modify t fun task => task.removeChildren ids).registry) := by
    simp only [Registry.settle, Interruption.onChild, hchild]
  have hopen : (Interruption.onChild c).resolved = false := rfl
  unfold continueRound
  simp only [task, undone, blocked, hopen, Bool.false_eq_true, if_false, hsettle]
  by_cases hids : ids.contains c = true
  · simp only [hids, if_true, tier, idle, Wait.isNow, Bool.not_false, Bool.and_self]
  · simp only [hids, if_false, Bool.false_and, Bool.false_eq_true]

/-- What the turn of a task that waits for task `c` comes to. -/
theorem continueRound_chain {c : Nat}
    (core : Core begun m.registry [] [.round ids (t :: rest), .loop 0] none)
    (task : m.registry.get? t = some u) (blocked : u.interruption = some (.onChild c)) :
    ∃ child, m.registry.get? c = some child ∧ continueRound m [.loop 0] ids (t :: rest) =
      if ids.contains c then
        ⟨(m.modify t fun task => task.removeChildren ids).modify t fun task =>
          task.awaiting ((Interruption.onChild c).resolve (.value child.result)),
          [.round ids rest, .loop 0], .runTask t⟩
      else halt ((m.modify t fun task => task.removeChildren ids).modify t fun task =>
        task.awaiting (.onChild c)) [.round ids rest, .loop 0] := by
  have waiting := core.waiting_onChild task blocked
  obtain ⟨child, hc, hparent, _⟩ := core.exists_child task blocked
  have hlt := core.forest.parent_lt hc hparent
  exact ⟨child, hc, continueRound_onChild task waiting.done blocked waiting.tier waiting.running hc
    (Nat.ne_of_gt hlt)⟩

/-- The turn of a task that waits for one that is not over changes nothing for the program. -/
theorem shows_continueRound_waiting {c : Nat} {child : Task}
    (core : Core begun m.registry [] [.round ids (t :: rest), .loop 0] none)
    (rests : m.registry.Rests asked alike m.outer q) (task : m.registry.get? t = some u)
    (blocked : u.interruption = some (.onChild c)) (hc : m.registry.get? c = some child)
    (undone : child.done = false) :
    Shows o asked alike (continueRound m [.loop 0] ids (t :: rest)) q := by
  obtain ⟨_, _, he⟩ := continueRound_chain core task blocked
  have hids : ids.contains c = false := by
    by_contra hmem
    rw [Bool.not_eq_false, List.contains_iff_mem] at hmem
    obtain ⟨child', hc', hdone⟩ :=
      Registry.isDone_iff.mp (core.frames (.round ids (t :: rest)) (List.mem_cons_self ..) c hmem)
    rw [hc, Option.some.injEq] at hc'
    rw [← hc', undone] at hdone
    cases hdone
  have task' := Registry.get?_modify_of_eq_some (·.removeChildren ids) task
  rw [he, hids]
  exact .resting (.base (.round ids rest))
    ((rests.still (.removeChildren ids)).still (.awaiting task' blocked))

/-- The turn of the task that waits for the one that has ended: it goes on with the result. -/
theorem shows_continueRound_told {c : Nat} {child : Task} {fs above frames : List Nat} {s : σ}
    (core : Core begun m.registry [] [.round ids (t :: rest), .loop 0] none)
    (rests : m.registry.Rests asked alike m.outer (.sent child.result (fs ++ frames) s))
    (hc : m.registry.get? c = some child) (task : m.registry.get? t = some u)
    (blocked : u.interruption = some (.onChild c)) (coroutine : u.coroutine = some ⟨fs, true⟩)
    (live : fs ≠ []) (kept : u.abandoned = false) (chain : m.registry.Chain t above frames)
    (alone : m.registry.Alone (t :: above)) (same : alike m.outer s) :
    Shows o asked alike (continueRound m [.loop 0] ids (t :: rest))
      (.sent child.result (fs ++ frames) s) := by
  obtain ⟨child', hc', he⟩ := continueRound_chain core task blocked
  rw [hc, Option.some.injEq] at hc'
  subst hc'
  rw [he]
  have waiting := core.waiting_onChild task blocked
  have task' := Registry.get?_modify_of_eq_some (·.removeChildren ids) task
  split
  · have last : m.registry.Last t u frames := ⟨task, waiting.done, kept, above, chain, alone⟩
    have last' := (last.modify (·.removeChildren ids) rfl rfl).modify
      (·.awaiting ((Interruption.onChild c).resolve (.value child.result))) rfl rfl
    exact .answered (.round ids rest) last' coroutine live rfl same
  · exact .resting (.base (.round ids rest))
      ((rests.still (.removeChildren ids)).still (.awaiting task' blocked))

/-- **A task has its turn in a round**: it is told of the end of its child, or nothing changes for
the program. -/
theorem shows_continueRound (core : Core begun m.registry [] [.round ids rest, .loop 0] none)
    (rests : m.registry.Rests asked alike m.outer q) :
    Shows o asked alike (continueRound m [.loop 0] ids rest) q := by
  cases rest with
  | nil => exact .resting (.bubbling _) (rests.still (.of_get? fun _ => rfl))
  | cons t rest =>
    have base : Base [.round ids rest, .loop 0] := .round ids rest
    cases ht : m.get? t with
    | none =>
      unfold continueRound
      simp only [ht]
      exact .resting (.base base) rests
    | some u =>
      cases hd : u.done with
      | true =>
        unfold continueRound
        simp only [ht, hd, if_true]
        exact .resting (.base base) rests
      | false =>
        cases hi : u.interruption with
        | none =>
          unfold continueRound
          simp only [ht, hd, hi, Bool.false_eq_true, if_false]
          exact .resting (.base base) (rests.still (.removeChildren ids))
        | some i =>
          cases id rests with
          | due due same =>
            obtain ⟨last, frames, hlast, free, _, _⟩ := due
            obtain ⟨above, chain, alone⟩ := hlast.chain
            rcases List.mem_cons.mp (alone t u ht hd) with rfl | hmem
            · obtain rfl : last = u := Option.some.inj (hlast.task.symm.trans ht)
              rw [hi] at free
              cases free
            · obtain ⟨u', c, hu', blocked, hc⟩ := chain.waits hmem
              rcases hc with hc | ⟨rfl, _⟩
              · obtain ⟨child, _, htask, _⟩ := chain.waits hc
                exact shows_continueRound_waiting core rests hu' blocked htask
                  (chain.undone core hc htask)
              · exact shows_continueRound_waiting core rests hu' blocked hlast.task hlast.undone
          | told task done chain alone same =>
            obtain ⟨u', c, hu', blocked, hc⟩ := chain.waits (alone t u ht hd)
            rcases hc with hc | ⟨rfl, below, rfl⟩
            · obtain ⟨child, _, htask, _⟩ := chain.waits hc
              exact shows_continueRound_waiting core rests hu' blocked htask
                (chain.undone core hc htask)
            · cases chain with
              | behind _ task' blocked' coroutine live kept outer =>
                exact shows_continueRound_told core rests task task' blocked'
                  coroutine live kept outer
                  alone same

/-! ### The main loop -/

/-- The next task of a batch that can be selected is the last of the chain. -/
theorem shows_continueBatch (core : Core begun m.registry [] [.batch rest, .loop 0] none)
    (rests : m.registry.Rests asked alike m.outer q) :
    Shows o asked alike (continueBatch m [.loop 0] rest) q := by
  cases rest with
  | nil => exact .resting (.bubbling _) (rests.still (.of_get? fun _ => rfl))
  | cons t rest =>
    have base : Base [.batch rest, .loop 0] := .batch rest
    unfold continueBatch
    cases ht : m.get? t with
    | none =>
      simp only [ht]
      exact .resting (.base base) rests
    | some u =>
      simp only [ht]
      split
      · rename_i hsel
        simp only [Task.isSelectable, Bool.and_eq_true, Bool.not_eq_true'] at hsel
        obtain ⟨⟨⟨hd, _⟩, _⟩, hb⟩ := hsel
        have hfree : ∀ {c above frames}, m.registry.Chain c above frames → t ∉ above := by
          intro c above frames chain hmem
          obtain ⟨u', d, hu', blocked, _⟩ := chain.waits hmem
          obtain rfl : u' = u := Option.some.inj (hu'.symm.trans ht)
          simp [Task.isBlocked, blocked, Interruption.resolved, Interruption.onChild] at hb
        cases id rests with
        | @due a _ _ due same =>
          obtain ⟨_, _, last, _, _, _⟩ := id due
          obtain ⟨above, chain, alone⟩ := last.chain
          rcases List.mem_cons.mp (alone t u ht hd) with rfl | hmem
          · exact .selected base (Or.inl rfl) due same
          · exact (hfree chain hmem).elim
        | told _ _ chain alone _ => exact (hfree chain (alone t u ht hd)).elim
      · exact .resting (.base base) rests

/-- When the main loop asks, the program has ended, or a task is there to be started for it. -/
theorem ended_or_unstarted (core : Core begun m.registry [] [.loop 0] none)
    (heard : m.registry.finished = []) (rests : m.registry.Rests asked alike m.outer q) :
    (∃ t s, m.registry.get? 0 = some t ∧ t.done = true ∧ m.registry.pending = [] ∧
      q = .sent t.result [] s ∧ alike m.outer s) ∨
    m.registry.isDone 0 = false ∧ ∃ a t, m.registry.get? a = some t ∧
    t.done = false ∧ t.Unstarted := by
  have hquiet := Registry.quiet_of_core core heard
  cases rests with
  | @due a _ _ due same =>
    obtain ⟨t, _, last, free, _, _⟩ := due
    obtain ⟨t', ht', _, hsleep⟩ :=
      hquiet.pending a (core.forest.mem_pending.mpr ⟨t, last.task, last.undone⟩)
    obtain rfl : t' = t := Option.some.inj (ht'.symm.trans last.task)
    rcases hsleep with hun | ⟨i, asleep⟩
    · refine Or.inr ⟨?_, a, t', ht', last.undone, hun⟩
      obtain ⟨above, chain, _⟩ := last.chain
      rcases List.mem_cons.mp chain.root_mem with rfl | hroot
      · rw [Registry.isDone_of_eq_some ht', last.undone]
      · obtain ⟨u, _, hu, _⟩ := chain.waits hroot
        rw [Registry.isDone_of_eq_some hu,
          chain.undone core hroot hu]
    · rw [asleep.interruption] at free
      cases free
  | @told a t above frames s task done chain alone same =>
    cases chain with
    | root =>
      refine Or.inl ⟨t, s, task, done, List.eq_nil_iff_forall_not_mem.mpr fun i hi => ?_, rfl, same⟩
      obtain ⟨u, hu, hd⟩ := core.forest.mem_pending.mp hi
      exact List.not_mem_nil (alone i u hu hd)
    | @behind _ p tp fs above frames _ waits blocked _ _ _ _ =>
      have undone := (core.waiting_onChild waits blocked).done
      obtain ⟨t', ht', _, hsleep⟩ :=
        hquiet.pending p (core.forest.mem_pending.mpr ⟨tp, waits, undone⟩)
      obtain rfl : t' = tp := Option.some.inj (ht'.symm.trans waits)
      rcases hsleep with hun | ⟨i, asleep⟩
      · rw [hun.interruption] at blocked
        cases blocked
      · have hi := asleep.interruption
        rw [blocked, Option.some.injEq] at hi
        subst hi
        obtain ⟨d, hdep, u, hu, hd⟩ := asleep.unsatisfied
        obtain rfl : a = d := List.singleton_inj.mp hdep
        obtain rfl : u = t := Option.some.inj (hu.symm.trans task)
        rw [done] at hd
        cases hd

/-- **The main loop finds a task for the program**, unless it has ended. -/
theorem shows_continueLoop (o : RunOptions) (core : Core begun m.registry [] [.loop 0] none)
    (heard : m.registry.finished = []) (rests : m.registry.Rests asked alike m.outer q) :
    Shows o asked alike (continueLoop o m 0) q := by
  rcases ended_or_unstarted core heard rests with
    ⟨t, s, task, done, nothing, rfl, same⟩ | ⟨hroot, a, t, task, undone, unstarted⟩
  · have hover : m.registry.isDone 0 = true := Registry.isDone_iff.mpr ⟨t, task, done⟩
    rw [continueLoop_of_settled (by simp [settled, hover, nothing])]
    exact .ended task same
  · have hopen : settled o m 0 = false := by simp [settled, hroot]
    have hbatch :=
      selectable_of_unstarted core.forest (Registry.quiet_of_core core heard) task undone
      unstarted
    rcases Nat.lt_or_ge m.steps o.stepLimit with hlt | hle
    · rcases continueLoop_of_ready hopen hlt hbatch with ⟨trace, heq⟩ | ⟨_, heq⟩
      · rw [heq]
        exact .resting (.base (.batch _)) rests
      · rw [heq]
        exact .unwritten (unwritten_abort ..) q
    · refine .exceeded ?_ q
      show o.stepLimit < (continueLoop o m 0).machine.steps
      rw [steps_continueLoop m hopen]
      exact Nat.lt_succ_of_le hle

theorem shows_bubble (o : RunOptions) (ids : List Nat)
    (rests : m.registry.Rests asked alike m.outer q) :
    Shows o asked alike (bubble o m [.loop 0] ids) q := by
  rcases bubble_cases o m [.loop 0] ids with ⟨_, heq⟩ | ⟨_, ⟨trace, heq⟩ | ⟨_, heq⟩⟩
  · rw [heq]
    exact .resting .looking rests
  · rw [heq]
    exact .resting (.base (.round _ _)) rests
  · rw [heq]
    exact .unwritten (unwritten_abort ..) q

/-- Nothing but the stack and a flag changes while a run is given up. -/
theorem shows_unwind {f : Failure} (stack : List Frame)
    (h : ∀ below (m' : Machine σ), m'.outer = m.outer →
      Shows o asked alike ⟨m', below, .abort f⟩ q) :
    Shows o asked alike (unwind m f stack) q := by
  unfold unwind
  split <;> exact h _ _ rfl

/-! ### Steps and runs -/

/-- **A step keeps the configuration showing where the program stands.** -/
theorem later_step (hv : v.Follows asked w alike) (o : RunOptions)
    {c : Config σ} (regular : c.Regular)
    (shows : c.Shows o asked alike q) : Later o asked alike w (c.step v o) q := by
  obtain ⟨begun, sound⟩ := regular.sound
  cases shows with
  | resting idle rests =>
    cases idle with
    | base base =>
      cases base with
      | batch rest =>
        cases sound with
        | resting core _ => exact ⟨_, .refl _, shows_continueBatch core rests⟩
      | round ids rest =>
        cases sound with
        | resting core _ => exact ⟨_, .refl _, shows_continueRound core rests⟩
    | looking =>
      cases sound with
      | resting _ nested => cases nested
      | looking core heard => exact ⟨_, .refl _, shows_continueLoop o core heard rests⟩
    | bubbling ids => exact ⟨_, .refl _, shows_bubble o ids rests⟩
  | selected base picked due same =>
    rcases picked with rfl | rfl
    · exact ⟨_, .refl _, shows_runTask_due base due same⟩
    · cases sound with
      | starting core _ _ _ _ => exact later_start base hv o core.forest due same
  | answered base last coroutine live answer same =>
    exact ⟨_, .refl _, shows_runTask_answered base last coroutine live answer same⟩
  | driving base last coroutine live fits ordinary same =>
    exact later_drive base hv last coroutine live fits ordinary same
  | asking base leads sequential same => exact later_interpret base hv sequential leads same
  | advancing base x leads same =>
    have within : (Signal.send x).Within ErrorClass.isOrdinary := trivial
    exact later_goOn base hv leads within same _
  | entering base g leads same => exact later_enter base hv g leads same
  | @raised m stack a fs frames u e base leads ordinary same =>
    have within : (Signal.throw e).Within ErrorClass.isOrdinary := ordinary
    exact later_goOn base hv leads within same _
  | blocking base blocks same => exact later_block base blocks same
  | completing base x last same =>
    cases sound with
    | completing _ core _ _ _ _ => exact ⟨_, .refl _, shows_complete base o core.forest x last same⟩
  | failing base e last same =>
    cases sound with
    | failing _ core _ task free _ =>
      have hale := last.task.symm.trans task
      rw [Option.some.injEq] at hale
      obtain ⟨m', hfail, shows⟩ := shows_fail base o core.forest e last (hale ▸ free.error) same
      refine ⟨_, .refl _, ?_⟩
      unfold step
      simp only [hfail]
      exact shows
  | propagating base e chain alone same =>
    cases sound with
    | propagating _ core _ task _ =>
      have ordinary := regular.ordinary.control e rfl
      exact ⟨_, .refl _, shows_propagate base o core task regular.root ordinary chain alone same⟩
  | ended task same => exact ⟨_, .refl _, .ended task same⟩
  | givenUp stack ends same => exact ⟨_, .refl _, shows_unwind stack fun below _ h =>
      .givenUp below ends (h ▸ same)⟩
  | exceeded past q =>
    exact ⟨q, .refl q, .exceeded (Nat.lt_of_lt_of_le past (steps_le_step v o c)) q⟩
  | unwritten given q => exact ⟨q, .refl q, .unwritten (given.step v o) q⟩

theorem shows_launched {outer start : σ} (name : String) (g : Nat) (same : alike outer start) :
    Shows o asked alike (launched outer name g) (.sent .null [g] start) := by
  have hroot : (launched outer name g).machine.registry.get? 0 = some _ :=
    Registry.Forest.get?_create_new (r := Registry.empty) name .now none false
      (some (.ofGenerator g)) none nofun
  refine .driving (.batch []) ⟨hroot, rfl, rfl, [], .root, fun i t ht _ => ?_⟩ rfl
    (List.cons_ne_nil g []) (Or.inr rfl) trivial same
  rcases Registry.get?_create_cases
      (fun _ hp => by cases hp) (show (Registry.empty.create name .now none
      false (some (.ofGenerator g)) none).1.get? i = some t from ht) with ⟨rfl, _⟩ | ⟨hlt, _⟩
  · exact List.mem_singleton.mpr rfl
  · exact absurd hlt (Nat.not_lt_zero i)

/-- **A run shows where the program stands**, however far either has got. -/
theorem later_run (hv : v.Follows asked w alike) (o : RunOptions)
    {c : Config σ} (regular : c.Regular)
    (shows : c.Shows o asked alike q) (n : Nat) : Later o asked alike w (run v o n c) q := by
  induction n with
  | zero => exact ⟨q, .refl q, shows⟩
  | succ n ih =>
    obtain ⟨q', hq, shows'⟩ := ih
    rw [run_succ]
    split
    · exact ⟨q', hq, shows'⟩
    · obtain ⟨q'', hq', shows''⟩ := later_step hv o (regular.run v o n) shows'
      exact ⟨q'', hq.trans hq', shows''⟩

/-! ### How runs end -/

/-- What a run has ended with: a failure, or the result of its root. -/
def ending (c : Config σ) : Except Failure Value :=
  match c.failure? with
  | some f => .error f
  | none => .ok (match c.machine.get? 0 with
    | some root => root.result
    | none => .null)

end Config

/-- The same end, though perhaps at another step. -/
inductive SameEnd : Except Failure Value → Except Failure Value → Prop
  | returned (v : Value) : SameEnd (.ok v) (.ok v)
  | escaped (e : Exn) (name name' : Option String) (step step' : Option Nat) :
      SameEnd (.error (.harness (.testedCode e (some 0) name step)))
        (.error (.harness (.testedCode e (some 0) name' step')))
  | refused {f f' : Failure} (h : f.Alike f') : SameEnd (.error f) (.error f')

theorem SameEnd.isOk {x y : Except Failure Value} (h : SameEnd x y) : x.isOk = y.isOk := by
  cases h <;> rfl

theorem SameEnd.map {x y : Except Failure Value} (h : SameEnd x y) (f : Value → Value) :
    SameEnd (x.map f) (y.map f) := by
  cases h with
  | returned v => exact .returned (f v)
  | escaped e name name' step step' => exact .escaped e name name' step step'
  | refused h => exact .refused h

inductive Straight.Ends : Straight σ → Except Failure Value → Prop
  | returned (v : Value) (u : σ) : Ends (.sent v [] u) (.ok v)
  | escaped (e : Exn) (name : Option String) (step : Option Nat) (u : σ) :
      Ends (.thrown e [] u) (.error (.harness (.testedCode e (some 0) name step)))
  | refused {f f' : Failure} (h : f.Alike f') (frames : List Nat) (u : σ) :
      Ends ⟨.refused f', frames, u⟩ (.error f)

namespace Straight.Ends

variable {q : Straight σ} {x y : Except Failure Value}

theorem settled (h : q.Ends x) : q.Over := by
  cases h with
  | returned v u => exact .ended _ u
  | escaped e name step u => exact .ended _ u
  | refused h frames u => exact .refused _ frames u

/-- A program that has ended has ended in one way. -/
theorem same (h : q.Ends x) (h' : q.Ends y) : SameEnd x y := by
  cases h with
  | returned v u =>
    cases h' with
    | returned => exact .returned v
  | escaped e name step u =>
    cases h' with
    | escaped _ name' step' => exact .escaped e name name' step step'
  | refused h frames u =>
    cases h' with
    | refused h' => exact .refused (h.trans h'.symm)

end Straight.Ends

namespace Config

variable {v w : World σ} {q : Straight σ}

/-- A run that has ended shows how its program ends, unless it has passed its step limit or could
not write a report. -/
theorem Shows.ends {c : Config σ} (shows : c.Shows o asked alike q) (final : c.isFinal = true)
    (within : ¬ c.Exceeded o) (written : ¬ c.Unwritten) : q.Ends c.ending ∧
    alike c.machine.outer q.outer := by
  have hempty : c.stack = [] := by
    simp only [isFinal, Bool.and_eq_true, List.isEmpty_iff] at final
    exact final.1
  have hbase : ∀ {stack : List Frame}, Base stack → stack ≠ [] := by
    intro stack base
    cases base <;> exact List.cons_ne_nil _ _
  cases shows with
  | resting idle _ =>
    cases idle with
    | base base => exact (hbase base hempty).elim
    | looking => cases hempty
    | bubbling => cases hempty
  | selected base _ _ _ => exact (hbase base hempty).elim
  | answered base _ _ _ _ _ => exact (hbase base hempty).elim
  | driving base _ _ _ _ _ _ => exact (hbase base hempty).elim
  | asking _ _ _ _ => cases hempty
  | advancing _ _ _ _ => cases hempty
  | entering _ _ _ _ => cases hempty
  | raised _ _ _ _ => cases hempty
  | blocking _ _ _ => cases hempty
  | completing base _ _ _ => exact (hbase base hempty).elim
  | failing base _ _ _ => exact (hbase base hempty).elim
  | propagating base _ _ _ _ => exact (hbase base hempty).elim
  | @ended m t u task same =>
    have hget : m.get? 0 = some t := task
    refine ⟨?_, same⟩
    unfold ending failure?
    simp only [hget]
    exact .returned _ u
  | givenUp stack ends same =>
    refine ⟨?_, same⟩
    cases ends with
    | escaped e name step u => exact .escaped e name step u
    | refused h frames u => exact .refused h frames u
  | exceeded past => exact (within past).elim
  | unwritten given => exact (written given).elim

/-- **Runs of one program end alike**, in whatever worlds that answer as `w` does. -/
theorem same_end {v' : World σ} (hv : v.Follows asked w alike)
    (hv' : v'.Follows asked w alike) (o : RunOptions)
    {outer outer' start : σ} (same : alike outer start) (same' : alike outer' start) (name : String)
    (g n n' : Nat) (final : (run v o n (launched outer name g)).isFinal = true)
    (final' : (run v' o n' (launched outer' name g)).isFinal = true)
    (within : ¬ (run v o n (launched outer name g)).Exceeded o)
    (within' : ¬ (run v' o n' (launched outer' name g)).Exceeded o)
    (written : ¬ (run v o n (launched outer name g)).Unwritten)
    (written' : ¬ (run v' o n' (launched outer' name g)).Unwritten) :
    SameEnd (run v o n (launched outer name g)).ending
      (run v' o n' (launched outer' name g)).ending ∧
      ∃ u, alike (run v o n (launched outer name g)).machine.outer u ∧
        alike (run v' o n' (launched outer' name g)).machine.outer u := by
  obtain ⟨q, hq, shows⟩ :=
    later_run hv o (regular_launched outer name g) (shows_launched name g same) n
  obtain ⟨q', hq', shows'⟩ :=
    later_run hv' o (regular_launched outer' name g) (shows_launched name g same') n'
  obtain ⟨ends, hsame⟩ := shows.ends final within written
  obtain ⟨ends', hsame'⟩ := shows'.ends final' within' written'
  obtain rfl := hq.unique hq' ends.settled ends'.settled
  exact ⟨ends.same ends', q.outer, hsame, hsame'⟩

end Config

/-! ### The record of a run -/

/-- The same request and the same answer, but for when a call is to be made. -/
inductive Exchange.Alike : Exchange → Exchange → Prop
  | resumed (g : Nat) (signal : Signal) (response : Response) :
      Alike (.resumed g signal response) (.resumed g signal response)
  | invoked (call : Call) (answer : Except Exn Value) :
      Alike (.invoked call answer) (.invoked call answer)
  | planned (call : Call) {answer answer' : Except Failure CallPlan}
      (h : Agree CallPlan.SameButWait answer answer') :
      Alike (.planned call false answer) (.planned call false answer')
  | handled (e : Effect) (context context' : Context) {answer answer' : Except Failure Reaction}
      (h : Agree (· = ·) answer answer') :
      Alike (.handled e context answer) (.handled e context' answer')

namespace Exchange.Alike

variable {x y z : Exchange}

theorem symm (h : x.Alike y) : y.Alike x := by
  cases h with
  | resumed g signal response => exact .resumed g signal response
  | invoked call answer => exact .invoked call answer
  | planned call h => exact .planned call (h.symm fun _ _ => CallPlan.SameButWait.symm)
  | handled e context context' h => exact .handled e context' context (h.symm fun _ _ => Eq.symm)

theorem trans (h : x.Alike y) (h' : y.Alike z) : x.Alike z := by
  cases h with
  | resumed g signal response => exact h'
  | invoked call answer => exact h'
  | planned call h =>
    cases h' with
    | planned _ h' => exact .planned call (h.trans (fun _ _ _ h h' => h.trans h') h')
  | handled e context context' h =>
    cases h' with
    | handled _ _ context'' h' =>
      exact .handled e context context'' (h.trans (fun _ _ _ h h' => h.trans h') h')

/-- Two records that are like a third are like each other. -/
theorem of_common {xs ys zs : List Exchange} (h : List.Forall₂ Exchange.Alike xs zs)
    (h' : List.Forall₂ Exchange.Alike ys zs) : List.Forall₂ Exchange.Alike xs ys := by
  induction h generalizing ys with
  | nil =>
    cases h'
    exact .nil
  | cons hx _ ih =>
    cases h' with
    | cons hy h' => exact .cons (hx.trans hy.symm) (ih h')

end Exchange.Alike

def AlikeRecords (alike : σ → σ → Prop) (s u : σ × List Exchange) : Prop :=
  alike s.1 u.1 ∧ List.Forall₂ Exchange.Alike s.2 u.2

theorem AlikeRecords.extend {s u : σ × List Exchange} {s' u' : σ} (h : AlikeRecords alike s u)
    {x y : Exchange} (same : alike s' u') (hx : x.Alike y) :
    AlikeRecords alike (s', s.2 ++ [x]) (u', u.2 ++ [y]) :=
  ⟨same, List.rel_append h.2 (.cons hx .nil)⟩

/-- Worlds that answer alike keep records that are alike. -/
theorem World.FollowsWithin.recorded {raisable : ErrorClass → Bool} {v w : World σ}
    (hv : v.FollowsWithin raisable asked w alike) :
    v.recorded.FollowsWithin raisable asked w.recorded (AlikeRecords alike) where
  resumes := by
    intro s u view g signal same within
    obtain ⟨ha, hs⟩ := hv.resumes view g same.1 within
    refine ⟨ha, same.extend hs ?_⟩
    rw [ha]
    exact .resumed g signal _
  yields := by
    intro s u view g signal x same within
    exact hv.yields view g same.1 within
  raises := by
    intro s u view g signal e same within
    exact hv.raises view g same.1 within
  invokes := by
    intro s u view call asks same
    obtain ⟨ha, hs⟩ := hv.invokes view call asks same.1
    refine ⟨ha, same.extend hs ?_⟩
    rw [ha]
    exact .invoked call _
  plans := by
    intro s u view call asks same
    obtain ⟨ha, hs⟩ := hv.plans view call asks same.1
    exact ⟨ha, same.extend hs (.planned call ha)⟩
  handlers := by
    intro e
    simpa [World.recorded] using hv.handlers e
  handles := by
    intro e h h' s u view context hh hh' kind asks outside same
    obtain ⟨handler, hv', rfl⟩ := Option.map_eq_some_iff.mp hh
    obtain ⟨handler', hw', rfl⟩ := Option.map_eq_some_iff.mp hh'
    obtain ⟨ha, hs⟩ := hv.handles view context hv' hw' kind asks outside same.1
    exact ⟨ha, same.extend hs (.handled e context _ ha)⟩
  shows := by
    intro e h s u view context x hh kind asks outside same hx
    obtain ⟨handler, hv', rfl⟩ := Option.map_eq_some_iff.mp hh
    exact hv.shows view context hv' kind asks outside same.1 hx

namespace Config

variable {v v' w : World σ}

/-- The run has come to its end within its step limit, and not over a report that cannot be written.
-/
structure Ended (o : RunOptions) (c : Config σ) : Prop where
  final : c.isFinal = true
  within : ¬ c.Exceeded o
  written : ¬ c.Unwritten

/-- The same requests have got the same answers in the same order, and the runs have ended the same
way. -/
structure SameRun (c c' : Config (σ × List Exchange)) : Prop where
  exchanges : List.Forall₂ Exchange.Alike c.machine.outer.2 c'.machine.outer.2
  ending : SameEnd c.ending c'.ending

/-- **Runs of one program are alike from their beginning to their end**, in whatever worlds that
answer as `w` does. -/
theorem same_run (hv : v.Follows asked w alike) (hv' : v'.Follows asked w alike) (o : RunOptions)
    {outer outer' start : σ} (same : alike outer start) (same' : alike outer' start)
    (name : String) (g n n' : Nat)
    (ended : (run v.recorded o n (launched (outer, []) name g)).Ended o)
    (ended' : (run v'.recorded o n' (launched (outer', []) name g)).Ended o) :
    (run v.recorded o n (launched (outer, []) name g)).SameRun
        (run v'.recorded o n' (launched (outer', []) name g)) ∧
      ∃ u, alike (run v.recorded o n (launched (outer, []) name g)).machine.outer.1 u ∧
        alike (run v'.recorded o n' (launched (outer', []) name g)).machine.outer.1 u := by
  have before : AlikeRecords alike (outer, []) (start, []) := ⟨same, .nil⟩
  have before' : AlikeRecords alike (outer', []) (start, []) := ⟨same', .nil⟩
  obtain ⟨ends, u, hu, hu'⟩ :=
    same_end hv.recorded hv'.recorded o before before' name g n n' ended.final
    ended'.final ended.within ended'.within ended.written ended'.written
  exact ⟨⟨Exchange.Alike.of_common hu.2 hu'.2, ends⟩, u.1, hu.1, hu'.1⟩

end Config

namespace Playbook

def Admits (raisable : ErrorClass → Bool) : Response → Prop
  | .yielded x => x.Sequential fun _ => True
  | .returned _ => True
  | .raised e => raisable e.kind = true

/-- Playbooks of one sequential program, with plans that differ in nothing but when calls are made.
-/
structure Alike (raisable : ErrorClass → Bool) (s u : Playbook) : Prop where
  responses : s.responses = u.responses
  plans : List.Forall₂ CallPlan.SameButWait s.plans u.plans
  admitted : ∀ g, ∀ response ∈ s.responses g, Admits raisable response

theorem Alike.response {raisable : ErrorClass → Bool} {s u : Playbook} (h : Alike raisable s u)
    (view : View) (g : Nat) (signal : Signal) :
    Matches (Alike raisable) (world.resume view g signal s) (world.resume .idle g signal u) ∧
      Admits raisable (world.resume view g signal s).1 := by
  have hadmitted := h.admitted g
  have hsame : u.responses g = s.responses g := congrFun h.responses.symm g
  unfold world
  dsimp only
  rw [hsame]
  cases hr : s.responses g with
  | nil => exact ⟨⟨rfl, h⟩, trivial⟩
  | cons response rest =>
    refine ⟨⟨rfl, ?_, h.plans, fun g' response' hmem => ?_⟩, hadmitted response (by simp [hr])⟩
    · funext g'
      exact congrArg (fun responses => if g' = g then rest else responses g') h.responses
    · dsimp only at hmem
      split at hmem
      · exact hadmitted response' (hr ▸ List.mem_cons_of_mem _ hmem)
      · exact h.admitted g' response' hmem

/-- A world that goes by its playbook heeds nothing of the run. -/
theorem world_follows (raisable : ErrorClass → Bool) :
    world.FollowsWithin raisable (fun _ => True) world (Alike raisable) where
  resumes := fun view g _ same _ => (same.response view g _).1
  yields := by
    intro s u view g signal x same _ hx
    have hadmits := (same.response view g signal).2
    rw [hx] at hadmits
    exact hadmits
  raises := by
    intro s u view g signal e same _ he
    have hadmits := (same.response view g signal).2
    rw [he] at hadmits
    exact hadmits
  invokes := fun _ _ _ same => ⟨rfl, same⟩
  plans := by
    intro s u view call _ same
    have hplans := same.plans
    unfold world
    dsimp only
    cases hs : s.plans with
    | nil =>
      rw [hs] at hplans
      cases hu : u.plans with
      | nil => exact ⟨.ok ⟨rfl, rfl, rfl⟩, same⟩
      | cons plan' rest' => rw [hu] at hplans; cases hplans
    | cons plan rest =>
      rw [hs] at hplans
      cases hu : u.plans with
      | nil => rw [hu] at hplans; cases hplans
      | cons plan' rest' =>
        rw [hu] at hplans
        cases hplans with
        | cons h hrest => exact ⟨.ok h, same.responses, hrest, same.admitted⟩
  handlers := fun _ => Iff.rfl
  handles := nofun
  shows := nofun

/-- A program that calls a function and returns, and what the function's generator does. The call is
made when the plan says so. -/
def calling (wait : Wait) (inner : Response) : Playbook where
  responses
    | 0 => [.yielded (.effect (.call .null [] [])), .returned (.text "over")]
    | 1 => [inner]
    | _ => []
  plans := [⟨false, .generator 1, none, wait⟩]

theorem calling_alike {raisable : ErrorClass → Bool} (wait wait' : Wait) (inner : Response)
    (h : Admits raisable inner) : Alike raisable (calling wait inner) (calling wait' inner) where
  responses := rfl
  plans := .cons ⟨rfl, rfl, rfl⟩ .nil
  admitted := by
    intro g response hmem
    unfold calling at hmem
    dsimp only at hmem
    split at hmem
    · rcases List.mem_pair.mp hmem with rfl | rfl
      · exact .effect (Or.inl rfl) trivial
      · trivial
    · obtain rfl := List.mem_singleton.mp hmem
      exact h
    · cases hmem

end Playbook

end Rehearsal
