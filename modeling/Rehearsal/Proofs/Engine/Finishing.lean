import Rehearsal.Proofs.Engine.Regular
import Rehearsal.Proofs.Engine.WakeUp

/-!
# How tasks end

A task ends in four ways: its computation returns or fails with no child that lives, what its entry
produced was its value already, or it was held for its children and the last of them is over. No
other step ends anybody. `Finalizes` lists the four, and a task that is not over is so after a step
exactly if the step finalizes it.
-/
namespace Rehearsal

variable {σ : Type} {begun : Nat → Prop} {t : Nat} {u : Task}

namespace Registry

variable {l : Licence} {r r' : Registry}

theorem Flagged.isDone {gone : Nat → Prop} (h : Flagged r r' gone) (i : Nat) :
    r'.isDone i = r.isDone i := by
  obtain ⟨c, lv, he, _⟩ := h.get? i
  unfold Registry.isDone
  rw [he]
  cases r.get? i <;> rfl

/-- Which children live depends on what is over, and on nothing else. -/
theorem live_congr {u' : Task} (hd : ∀ i, r'.isDone i = r.isDone i)
    (hc : u'.children = u.children) :
    r'.live u' = r.live u := by
  unfold live
  rw [hc]
  exact List.filter_congr fun c _ => by rw [hd]

namespace Amends

/-- Of a task that is not worked on only the flags and the children change. -/
theorem unworked (h : r.Amends l r') {i : Nat} (hn : ¬ l.works i) :
    ∀ {u}, r.get? i = some u → ∃ a b cs, r'.get? i = some { u.flag a b with children := cs } := by
  have hsame : ∀ u : Task, u = { u.flag false false with children := u.children } := by
    intro u
    rw [Task.flag_false]
  induction h with
  | refl _ => exact fun {u} hu => ⟨false, false, u.children, by rw [← hsame]; exact hu⟩
  | trans _ _ ih ih' =>
    intro u hu
    obtain ⟨a, b, cs, hu'⟩ := ih hu
    obtain ⟨a', b', cs', hu''⟩ := ih' hu'
    refine ⟨a || a', b || b', cs', hu''.trans ?_⟩
    rw [← Task.flag_flag]
    rfl
  | @modify r j f works _ =>
    intro u hu
    have hi : i ≠ j := fun he => hn (he ▸ works)
    exact ⟨false, false, u.children, by rw [get?_modify_ne hi, ← hsame]; exact hu⟩
  | @fail r j e works _ _ =>
    intro u hu
    have hi : i ≠ j := fun he => hn (he ▸ works)
    exact ⟨false, false, u.children, by rw [get?_modify_ne hi, ← hsame]; exact hu⟩
  | @finish r j v works =>
    intro u hu
    have hi : i ≠ j := fun he => hn (he ▸ works)
    exact ⟨false, false, u.children, by rw [get?_retire, get?_modify_ne hi, ← hsame]; exact hu⟩
  | flagged h _ =>
    intro u hu
    obtain ⟨a, b, hu', _⟩ := h.eq_some hu
    exact ⟨a, b, u.children, hu'⟩
  | @create r _ _ _ _ _ _ _ =>
    intro u hu
    rcases get?_create_lt _ _ _ _ _ hu with hu' | hu'
    · exact ⟨false, false, u.children, by rw [← hsame]; exact hu'⟩
    · refine ⟨false, false, (u.addChild r.size).children, hu'.trans ?_⟩
      rw [Task.flag_false]
      unfold Task.addChild
      split <;> rfl
  | reap _ => exact fun {u} hu => ⟨false, false, u.children, by rw [← hsame]; exact hu⟩

/-- What gets into the buffer of finished tasks was pending, or has just been made. -/
theorem buffered (h : r.Amends l r') :
    (∀ i ∈ r'.pending, i ∈ r.pending ∨ r.size ≤ i) ∧
      ∀ i ∈ r'.finished, i ∈ r.finished ∨ i ∈ r.pending ∨ r.size ≤ i := by
  induction h with
  | refl _ => exact ⟨fun _ => Or.inl, fun _ => Or.inl⟩
  | trans h _ ih ih' =>
    refine ⟨fun i hi => ?_, fun i hi => ?_⟩
    · rcases ih'.1 i hi with hi | hlt
      · exact ih.1 i hi
      · exact Or.inr (Nat.le_trans h.size_le hlt)
    · rcases ih'.2 i hi with hi | hi | hlt
      · exact ih.2 i hi
      · exact Or.inr (ih.1 i hi)
      · exact Or.inr (Or.inr (Nat.le_trans h.size_le hlt))
  | modify _ _ => exact ⟨fun _ => Or.inl, fun _ => Or.inl⟩
  | fail _ _ _ => exact ⟨fun _ => Or.inl, fun _ => Or.inl⟩
  | @finish r j v _ =>
    unfold retire
    split
    · rename_i hj
      refine ⟨fun i hi => Or.inl (List.mem_of_mem_erase hi), fun i hi => ?_⟩
      rcases List.mem_append.mp hi with hi | hi
      · exact Or.inl hi
      · rw [List.mem_singleton] at hi
        subst hi
        exact Or.inr (Or.inl (List.contains_iff_mem.mp hj))
    · exact ⟨fun _ => Or.inl, fun _ => Or.inl⟩
  | flagged h _ =>
    refine ⟨fun i hi => Or.inl (h.pending ▸ hi), fun i hi => Or.inl (h.finished ▸ hi)⟩
  | create _ _ =>
    rw [pending_create, finished_create]
    refine ⟨fun i hi => ?_, fun _ => Or.inl⟩
    rcases List.mem_append.mp hi with hi | hi
    · exact Or.inl hi
    · rw [List.mem_singleton] at hi
      exact Or.inr (Nat.le_of_eq hi.symm)
  | reap _ => exact ⟨fun _ => Or.inl, fun _ hi => by cases hi⟩

end Amends

/-- Settling an interruption ends nobody. -/
theorem isDone_settle {i i' : Interruption} {ids : List Nat} {ok : Bool}
    (h : r.settle t i ids = .ok (ok, i', r')) (hu : r.get? t = some u) : r'.isDone t = u.done := by
  have ha : r.Amends ⟨fun _ => False, fun _ => False, fun _ _ => False, fun _ => True, False⟩ r' :=
    amends_settle (fun _ _ _ => trivial) h
  obtain ⟨u', hu', hk⟩ := ha.kept hu
  rw [isDone_of_eq_some hu', (hk.spared id).done]

end Registry

/-! ### How a task ends -/

/-- The next step ends task `t` for good: its computation is over and no child of it lives, or it
was held for its children and the last of them is over. -/
def Config.Finalizes (w : World σ) (o : RunOptions) (c : Config σ) (t : Nat) : Prop :=
  ∃ u, c.machine.registry.get? t = some u ∧
    match c.control with
    | .complete i _ => i = t ∧ c.machine.registry.live u = []
    | .fail i _ => i = t ∧ u.error = none ∧ c.machine.registry.live u = []
    | .start i => i = t ∧ (c.step w o).control = .done ∧ c.machine.registry.live u = []
    | .runTask i => i = t ∧ ∃ j, u.interruption = some j ∧ j.kind = .children ∧
        ((∃ v, j.answer = some (.returned v)) ∨ ∃ e, j.answer = some (.failed e))
    | _ => False

namespace Machine

variable {m : Machine σ} {o : RunOptions}

theorem isDone_modify (m : Machine σ) (t i : Nat) (f : Task → Task)
    (hf : ∀ u, (f u).done = u.done) :
    (m.modify t f).registry.isDone i = m.registry.isDone i := Registry.isDone_modify _ t i f hf

theorem isDone_suspend (m : Machine σ) (t i : Nat) (b : Interruption) :
    (m.suspend o t b).registry.isDone i = m.registry.isDone i := by
  rw [registry_suspend]
  exact Registry.isDone_modify _ t i (·.block b) fun _ => rfl

theorem get?_finalize (hu : m.registry.get? t = some u) (v : Value) :
    (m.finalize t v).registry.get? t = some (u.finish v) := by
  rw [registry_finalize, Registry.get?_retire]
  exact Registry.get?_modify_of_eq_some _ hu

theorem isDone_finalize (hu : m.registry.get? t = some u) (v : Value) :
    (m.finalize t v).registry.isDone t = true :=
  Registry.isDone_iff.mpr ⟨_, get?_finalize hu v, rfl⟩

/-- With no child that lives the task ends with its result. -/
theorem get?_wrapUp (hu : m.registry.get? t = some u) (hl : m.registry.live u = []) (held : Pending)
    (v : Value) :
    (m.wrapUp o t held v).registry.get? t = some (Task.finish { u with children := [] } v) := by
  unfold wrapUp
  rcases holdForChildren_cases o hu held with ⟨m', _, hne, _⟩ | ⟨m', he, _, hm⟩
  · exact (hne hl).elim
  · simp only [he]
    refine get?_finalize ?_ v
    rw [hm]
    exact Registry.get?_modify_of_eq_some _ hu

/-- A computation that is over ends its task unless a child lives. -/
theorem isDone_wrapUp (hu : m.registry.get? t = some u) (hd : u.done = false) (held : Pending)
    (v : Value) :
    (m.wrapUp o t held v).registry.isDone t = true ↔ m.registry.live u = [] := by
  unfold wrapUp
  rcases holdForChildren_cases o hu held with ⟨m', he, hl, hm⟩ | ⟨m', he, hl, hm⟩
  · simp only [he, hm]
    rw [Registry.isDone_modify _ _ _ (Task.hold (m.registry.live u) held) fun _ => rfl,
      Registry.isDone_of_eq_some hu, hd]
    simp [hl]
  · simp only [he]
    have hu' : m'.registry.get? t = some { u with children := [] } := by
      rw [hm]
      exact Registry.get?_modify_of_eq_some _ hu
    exact iff_of_true (isDone_finalize hu' v) hl

theorem isDone_complete (hu : m.registry.get? t = some u) (hd : u.done = false) (v : Value) :
    (m.complete o t v).registry.isDone t = true ↔ m.registry.live u = [] :=
  isDone_wrapUp (o := o) hu hd (.returned v) v

/-- A task that has just failed has the children that it had. -/
theorem get?_condemn (hu : m.registry.get? t = some u) (e : Exn) :
    ∃ a b, (m.condemn t u.children e).registry.get? t =
      some (Task.flag a b { u with error := some e }) ∧
      (m.condemn t u.children e).registry.live (Task.flag a b { u with error := some e }) =
        m.registry.live u := by
  have hflag := Registry.cancelAll_flagged (m.registry.modify t fun u => { u with error := some e })
    u.children fun _ => False
  obtain ⟨a, b, hu', _⟩ := hflag.eq_some (Registry.get?_modify_of_eq_some _ hu)
  refine ⟨a, b, hu', Registry.live_congr (fun i => (hflag.isDone i).trans ?_) rfl⟩
  exact Registry.isDone_modify _ _ _ _ fun _ => rfl

theorem isDone_fail (hu : m.registry.get? t = some u) (hd : u.done = false) (he : u.error = none)
    {e : Exn} {m' : Machine σ} (hm : m.fail o t e = some m') :
    m'.registry.isDone t = true ↔ m.registry.live u = [] := by
  rw [fail_eq o hu he, Option.some.injEq] at hm
  subst hm
  obtain ⟨a, b, hu', hlive⟩ := m.get?_condemn hu e
  rw [isDone_wrapUp (m := m.condemn t u.children e) hu' hd, hlive]

/-- With no child that lives a task that fails ends with its exception. -/
theorem get?_fail (hu : m.registry.get? t = some u) (he : u.error = none)
    (hl : m.registry.live u = [])
    {e : Exn} {m' : Machine σ} (hm : m.fail o t e = some m') :
    ∃ u', m'.registry.get? t = some u' ∧ u'.error = some e ∧ u'.result = .error e := by
  rw [fail_eq o hu he, Option.some.injEq] at hm
  subst hm
  obtain ⟨a, b, hu', hlive⟩ := m.get?_condemn hu e
  exact ⟨_, get?_wrapUp hu' (hlive.trans hl) _ _, rfl, rfl⟩

end Machine

namespace Config

variable {w : World σ} {o : RunOptions} {m : Machine σ} {stack : List Frame}

/-- What was produced for a task ends it if that is its value. -/
theorem isDone_afterEntry (hu : m.registry.get? t = some u) (hd : u.done = false)
    (produced : Except Exn Value) :
    (afterEntry o m stack t produced).machine.registry.isDone t = true ↔
      (afterEntry o m stack t produced).control = .done ∧ m.registry.live u = [] := by
  have hopen : m.registry.isDone t = false := (Registry.isDone_of_eq_some hu).trans hd
  unfold afterEntry
  split
  · rename_i g
    have hsame :=
      m.isDone_modify t t (fun u => { u with coroutine := some (.ofGenerator g) }) fun _ => rfl
    refine iff_of_false ?_ (by simp)
    rw [hsame, hopen]
    decide
  · rename_i v _
    simp [halt, Machine.isDone_complete hu hd]
  · split <;> simp [hopen]

theorem isDone_start (hu : m.registry.get? t = some u) (hd : u.done = false) :
    (start w o m stack t).machine.registry.isDone t = true ↔
      (start w o m stack t).control = .done ∧ m.registry.live u = [] := by
  have hget : m.get? t = some u := hu
  have hu' := Registry.get?_modify_of_eq_some (fun u => { u with entry := none }) hu
  have hlive :
      (m.registry.modify t fun u => { u with entry := none }).live { u with entry := none } =
      m.registry.live u :=
    Registry.live_congr (fun i => Registry.isDone_modify _ _ _ _ fun _ => rfl) rfl
  cases he : u.entry with
  | none =>
    have hone :=
      Machine.isDone_complete (m := m.modify t fun u => { u with entry := none }) (o := o)
      hu' hd u.result
    unfold start
    simp only [hget, he]
    simp only [halt, true_and]
    exact hone.trans (by rw [Machine.registry_modify, hlive])
  | some entry =>
    rw [start_eq w o hget he]
    cases entry with
    | constant v =>
      refine (isDone_afterEntry (m := m.modify t fun u => { u with entry := none })
        hu' hd (.ok v)).trans ?_
      rw [Machine.registry_modify, hlive]
    | planned plan call =>
      have hreg : ((m.modify t fun u => { u with entry := none }).produce w plan call).2.registry =
          m.registry.modify t fun u => { u with entry := none } := Machine.registry_produce ..
      rw [← hreg] at hu'
      refine (isDone_afterEntry hu' hd _).trans ?_
      rw [hreg, hlive]

theorem isDone_runTask (hu : m.registry.get? t = some u) (hd : u.done = false) :
    (runTask m stack t).machine.registry.isDone t = true ↔
      ∃ j, u.interruption = some j ∧ j.kind = .children ∧
        ((∃ v, j.answer = some (.returned v)) ∨ ∃ e, j.answer = some (.failed e)) := by
  have hget : m.get? t = some u := hu
  have hopen : m.registry.isDone t = false := (Registry.isDone_of_eq_some hu).trans hd
  have hu' := Registry.get?_modify_of_eq_some (fun u => { u with interruption := none }) hu
  have hopen' : (m.registry.modify t fun u => { u with interruption := none }).isDone t = false :=
    (Registry.isDone_of_eq_some hu').trans hd
  unfold runTask
  simp only [hget]
  split
  · rename_i hi
    simp [hopen, hi]
  · rename_i hi
    simp [hopen, hi]
  · rename_i kind _ _ answer hi
    have hend : ∀ v,
        ((m.modify t fun u => { u with interruption := none }).finalize t v).registry.isDone t =
        true := Machine.isDone_finalize hu'
    by_cases hk : kind = .children
    · rw [if_pos hk]
      subst hk
      split
      · exact iff_of_true (hend _) ⟨_, hi, rfl, Or.inr ⟨_, rfl⟩⟩
      · exact iff_of_true (hend _) ⟨_, hi, rfl, Or.inl ⟨_, rfl⟩⟩
      · rename_i hfailed hreturned
        simp only [halt, Machine.registry_modify, hopen', hi]
        simpa using ⟨fun v => hreturned v, fun e => hfailed e⟩
    · rw [if_neg hk]
      split <;> simp [hopen', hi, hk]

/-! ### Steps that end nobody -/

theorem isDone_withCoroutine (m : Machine σ) (stack : List Frame) (t i : Nat)
    (go : Coroutine → σ → Progress × Coroutine × σ) :
    (withCoroutine m stack t go).machine.registry.isDone i = m.registry.isDone i := by
  unfold withCoroutine
  split
  · exact m.isDone_modify t i _ fun _ => rfl
  · rename_i c _
    obtain ⟨progress, c', s⟩ := go c m.outer
    have hkeep : (({ m with outer := s } : Machine σ).modify t fun task =>
        { task with coroutine := some c' }).registry.isDone i = m.registry.isDone i :=
      Machine.isDone_modify _ t i _ fun _ => rfl
    have hstop :
        ∀ m : Machine σ, (m.modify t fun task => { task with running := false }).registry.isDone i =
        m.registry.isDone i := fun m => m.isDone_modify t i _ fun _ => rfl
    cases progress with
    | suspended effect => exact hkeep
    | finished v => exact (hstop _).trans hkeep
    | raised e =>
      unfold afterProgress
      dsimp only
      split
      · exact (hstop _).trans hkeep
      · exact hkeep

theorem isDone_drive (m : Machine σ) (stack : List Frame) (t i : Nat) (s : Signal) :
    (drive w m stack t s).machine.registry.isDone i = m.registry.isDone i :=
  (isDone_withCoroutine ..).trans (m.isDone_modify t i _ (by intro; rfl))

theorem isDone_deliver (m : Machine σ) (stack : List Frame) (i : Nat) (a : Answer) :
    (deliver w o m a stack).machine.registry.isDone i = m.registry.isDone i := by
  have hstop : ∀ t, (m.modify t fun task => { task with running := false }).registry.isDone i =
      m.registry.isDone i := fun t => m.isDone_modify t i _ fun _ => rfl
  unfold deliver
  split
  · split
    · exact isDone_withCoroutine ..
    · exact isDone_withCoroutine ..
    · exact (Machine.isDone_suspend ..).trans (hstop _)
  · split
    · exact hstop _
    · exact (Machine.isDone_modify _ _ i _ (by intro; rfl)).trans (hstop _)
    · exact (Machine.isDone_suspend ..).trans (hstop _)
  · rfl

theorem isDone_catchException (m : Machine σ) (stack : List Frame) (i : Nat) (e : Exn) :
    (catchException w m e stack).machine.registry.isDone i = m.registry.isDone i := by
  unfold catchException
  split
  · exact isDone_withCoroutine ..
  · exact m.isDone_modify _ i _ fun _ => rfl
  · rfl
  · rfl

theorem isDone_unwind (m : Machine σ) (stack : List Frame) (i : Nat) (f : Failure) :
    (unwind m f stack).machine.registry.isDone i = m.registry.isDone i := by
  unfold unwind
  split
  · exact m.isDone_modify _ i _ fun _ => rfl
  · rfl
  · rfl

/-- The turn of a task in a round does not end it. -/
theorem isDone_continueRound (m : Machine σ) (stack : List Frame) (ids rest : List Nat)
    (hu : m.registry.get? t = some u) :
    (continueRound m stack ids (t :: rest)).machine.registry.isDone t = u.done := by
  have hget : m.get? t = some u := hu
  have hu' := Registry.get?_modify_of_eq_some (·.removeChildren ids) hu
  have hsame := Registry.isDone_of_eq_some hu
  have hsame' : (m.registry.modify t (·.removeChildren ids)).isDone t = u.done :=
    (Registry.isDone_of_eq_some hu').trans rfl
  unfold continueRound
  simp only [hget]
  split
  · exact hsame
  · split
    · exact hsame'
    · rename_i i _
      split
      · exact hsame'
      · cases hs : (m.modify t fun task => task.removeChildren ids).registry.settle t i ids with
        | error refusal => exact hsame'
        | ok settled =>
          obtain ⟨ok, i', r'⟩ := settled
          have hr : (r'.modify t (·.awaiting i')).isDone t = u.done :=
            (Registry.isDone_modify r' t t (·.awaiting i') fun _ => rfl).trans
              ((Registry.isDone_settle hs hu').trans rfl)
          dsimp only
          split
          · exact hr
          · exact hr

/-- A parent that a failure reaches is not over by that. -/
theorem isDone_propagate {d : Nat} {e : Exn} {v : Task}
    (hc : Rehearsal.Sound begun m.registry stack (.propagate d e)) (hv : m.registry.get? d = some v)
    (hp : v.parent = some t) (hopen : m.registry.isDone t = false) :
    (propagate o m stack d e).machine.registry.isDone t = false := by
  have hs := sound_propagate (o := o) hc
  have hturn := turn_propagate (o := o) hc
  generalize hnext : propagate o m stack d e = c' at hs hturn ⊢
  clear hnext
  generalize hbefore : (⟨m, stack, .propagate d e⟩ : Config σ) = c at hturn
  cases hturn with
  | subsides _ _ _ same _ _ =>
    cases hbefore
    exact same ▸ hopen
  | surfaces _ _ _ _ _ =>
    cases hbefore
    exact hopen
  | @climbs _ _ _ _ _ _ _ _ heeds _ leads =>
    cases hbefore
    have htask := heeds.task
    rw [hv, Option.some.injEq] at htask
    subst htask
    have hparent := heeds.parent
    rw [hp, Option.some.injEq] at hparent
    subst hparent
    split at leads
    · subst leads
      cases hs with
      | driving _ _ task poised => exact (Registry.isDone_of_eq_some task).trans poised.done
    · subst leads
      cases hs with
      | failing _ _ _ task free _ => exact (Registry.isDone_of_eq_some task).trans free.done
  | yields resumes _ | returns resumes _ | escapes resumes _ | dies resumes _ =>
    cases hbefore
    cases resumes
  | _ => cases hbefore

/-- Who is not worked on does not end. -/
theorem isDone_of_not_works (w : World σ) (o : RunOptions) {c : Config σ}
    (hu : c.machine.registry.get? t = some u) (hw : ¬ c.footprint.works t) :
    (c.step w o).machine.registry.isDone t = u.done := by
  obtain ⟨u', hu', _, hs⟩ := (moves_step w o c).kept hu
  rw [Registry.isDone_of_eq_some hu', (hs hw).done]

/-- A task that is about to fail is over after that if no child of it lives. -/
theorem isDone_step_fail (w : World σ) (o : RunOptions) {e : Exn}
    (hc : (⟨m, stack, .fail t e⟩ : Config σ).Sound begun) (hu : m.registry.get? t = some u)
    (hd : u.done = false) :
    u.error = none ∧
      ((step w o ⟨m, stack, .fail t e⟩).machine.registry.isDone t = true ↔
        m.registry.live u = []) := by
  cases hc with
  | failing _ core nested task free stopped =>
    rw [hu, Option.some.injEq] at task
    subst task
    obtain ⟨m', he, _⟩ := m.core_fail o core nested hu free stopped e
    have hstep : step w o ⟨m, stack, .fail t e⟩ = ⟨m', stack, .propagate t e⟩ := by
      simp only [step, he]
    rw [hstep]
    exact ⟨free.error, Machine.isDone_fail hu hd free.error he⟩

/-- **A task that is not over is so after a step exactly if the step finalizes it.** -/
theorem isDone_step_iff (w : World σ) (o : RunOptions) {c : Config σ} (hc : c.Sound begun)
    (hu : c.machine.registry.get? t = some u) (hd : u.done = false) :
    (c.step w o).machine.registry.isDone t = true ↔ c.Finalizes w o t := by
  have hopen := Registry.isDone_of_eq_some hu
  rw [hd] at hopen
  have hidle : ¬ c.footprint.works t → ¬ (c.step w o).machine.registry.isDone t = true := by
    intro hw
    rw [isDone_of_not_works w o hu hw, hd]
    exact Bool.false_ne_true
  have honly : ∀ {P : Task → Prop}, (∃ v, c.machine.registry.get? t = some v ∧ P v) ↔ P u := by
    intro P
    constructor
    · rintro ⟨v, hv, hp⟩
      rw [hu, Option.some.injEq] at hv
      exact hv ▸ hp
    · exact fun hp => ⟨u, hu, hp⟩
  unfold Finalizes
  rw [honly]
  obtain ⟨m, stack, control⟩ := c
  have hnever : (step w o ⟨m, stack, control⟩).machine.registry.isDone t = m.registry.isDone t →
      ((step w o ⟨m, stack, control⟩).machine.registry.isDone t = true ↔ False) := by
    intro he
    rw [he, hopen]
    exact ⟨Bool.false_ne_true, False.elim⟩
  cases control with
  | complete i v =>
    by_cases hi : i = t
    · subst hi
      exact (Machine.isDone_complete hu hd v).trans (by simp)
    · exact iff_of_false (hidle (Ne.symm hi)) fun h => hi h.1
  | fail i e =>
    by_cases hi : i = t
    · subst hi
      obtain ⟨herror, hends⟩ := isDone_step_fail w o hc hu hd
      exact hends.trans (by simp [herror])
    · exact iff_of_false (hidle (Ne.symm hi)) fun h => hi h.1
  | start i =>
    by_cases hi : i = t
    · subst hi
      exact (isDone_start hu hd).trans (by simp [step])
    · exact iff_of_false (hidle (Ne.symm hi)) fun h => hi h.1
  | runTask i =>
    by_cases hi : i = t
    · subst hi
      exact (isDone_runTask hu hd).trans (by simp)
    · exact iff_of_false (hidle (Ne.symm hi)) fun h => hi h.1
  | raised e => exact hnever (isDone_catchException m stack t e)
  | abort f => exact hnever (isDone_unwind m stack t f)
  | answer a => exact hnever (isDone_deliver m stack t a)
  | drive i s => exact hnever (isDone_drive m stack i t s)
  | interpret | bubble => exact iff_of_false (hidle id) id
  | propagate d e =>
    by_cases hw : (footprint ⟨m, stack, .propagate d e⟩).works t
    · obtain ⟨v, hv, hp⟩ := hw
      exact hnever ((isDone_propagate hc hv hp hopen).trans hopen.symm)
    · exact iff_of_false (hidle hw) id
  | done =>
    cases stack with
    | nil => exact iff_of_false (hidle id) id
    | cons f below =>
      rcases f with _ | _ | _ | _ | _ | ⟨ids, _ | ⟨i, rest⟩⟩ | _
      case round.cons =>
        by_cases hi : t = i
        · subst hi
          exact hnever ((isDone_continueRound m below ids rest hu).trans (hd.trans hopen.symm))
        · exact iff_of_false (hidle hi) id
      all_goals exact iff_of_false (hidle id) id

end Config

end Rehearsal
