import Rehearsal.Proofs.Engine.Finality

/-!
# Where coroutines and entries come from

A task has a coroutine from its start, or from the generator that its member of a race or gather
turned out to be, and then it is resumed at once with nothing. No other step gives a task a
coroutine. So whatever else is sent or thrown reaches a coroutine that has been resumed before. Of
entries it is no different: a task is made with one, or never has one. What both have in common is a
`Trait`.
-/
namespace Rehearsal

variable {σ : Type} {begun : Nat → Prop} {t : Nat} {w : World σ} {o : RunOptions}

/-- Something a task has by its coroutine or by its entry: no task comes by it in another way. -/
structure Task.Trait (T : Task → Prop) : Prop where
  kept : ∀ {u u' : Task}, (u'.entry = u.entry ∨ u'.entry = none) →
    (u'.coroutine.isSome = true → u.coroutine.isSome = true) → T u' → T u
  bare : ∀ {u : Task}, u.coroutine = none → u.entry = none → ¬ T u

theorem Task.trait_coroutine : Trait fun u => u.coroutine.isSome = true where
  kept _ hco := hco
  bare hco _ h := by simp [hco] at h

theorem Task.trait_entry (x : Entry) : Trait fun u => u.entry = some x where
  kept he _ h := by
    rcases he with he | he
    · exact he ▸ h
    · rw [he] at h
      cases h
  bare _ he h := by rw [he] at h; cases h

structure Registry.Inherits (T : Task → Prop) (r r' : Registry) : Prop where
  origin : ∀ {i u'}, r'.get? i = some u' → T u' → ∃ u, r.get? i = some u ∧ T u

namespace Registry

variable {T : Task → Prop} {r r' r'' : Registry}

namespace Inherits

protected theorem refl (T : Task → Prop) (r : Registry) : r.Inherits T r := ⟨fun hu h => ⟨_, hu, h⟩⟩

protected theorem trans (h : Inherits T r r') (h' : Inherits T r' r'') : Inherits T r r'' := by
  refine ⟨fun hu'' hT => ?_⟩
  obtain ⟨u', hu', hT'⟩ := h'.origin hu'' hT
  exact h.origin hu' hT'

theorem modify {f : Task → Task} (hf : ∀ u, r.get? t = some u → T (f u) → T u) :
    Inherits T r (r.modify t f) := by
  refine ⟨fun {i u'} hu' hT => ?_⟩
  rw [get?_modify] at hu'
  split at hu'
  · rename_i hi
    subst hi
    obtain ⟨u, hu, rfl⟩ := Option.map_eq_some_iff.mp hu'
    exact ⟨u, hu, hf u hu hT⟩
  · exact ⟨u', hu', hT⟩

/-- The coroutine and the entry stay as they are, or go. -/
theorem modify_kept (trait : Task.Trait T) {f : Task → Task}
    (he : ∀ u, (f u).entry = u.entry ∨ (f u).entry = none)
    (hco : ∀ u, (f u).coroutine = u.coroutine ∨ (f u).coroutine = none) :
    Inherits T r (r.modify t f) := by
  refine .modify fun u _ => trait.kept (he u) fun h => ?_
  rcases hco u with hco | hco
  · exact hco ▸ h
  · simp [hco] at h

theorem flagged (trait : Task.Trait T) {gone : Nat → Prop} (h : Flagged r r' gone) :
    Inherits T r r' := by
  refine ⟨fun hu' hT => ?_⟩
  obtain ⟨u, cancelled, gone, hu, rfl, _⟩ := h.of_eq_some hu'
  have hkept : T (u.flag cancelled gone) → T u := trait.kept (Or.inl rfl) id
  exact ⟨u, hu, hkept hT⟩

/-- The new task may have the trait; nobody else comes by it. -/
theorem create (trait : Task.Trait T) (name : String) (wait : Wait)
    (parent : Option Nat) (detached : Bool)
    {entry : Option Entry} (hnew : ∀ u : Task, u.coroutine = none → u.entry = entry → ¬ T u) :
    Inherits T r (r.create name wait parent detached none entry).1 := by
  have hpush : ∀ i u', (r.tasks.push (Task.fresh r.size name wait parent detached none entry))[i]? =
      some u' →
      T u' → r.get? i = some u' := by
    intro i u' hu' hT
    rw [Array.getElem?_push] at hu'
    split at hu'
    · cases hu'
      exact (hnew _ rfl rfl hT).elim
    · exact hu'
  refine ⟨fun {i u'} hu' hT => ?_⟩
  cases parent with
  | none => exact ⟨u', hpush i u' hu' hT, hT⟩
  | some p =>
    have hget :
        (Array.modify (r.tasks.push (Task.fresh r.size name wait (some p) detached none entry)) p
        (·.addChild r.size))[i]? = some u' := hu'
    rw [Array.getElem?_modify] at hget
    split at hget
    · obtain ⟨u, hu, rfl⟩ := Option.map_eq_some_iff.mp hget
      have hsame : (u.addChild r.size).coroutine = u.coroutine ∧
          (u.addChild r.size).entry = u.entry := by
        unfold Task.addChild
        split <;> exact ⟨rfl, rfl⟩
      have hT' : T u := trait.kept (Or.inl hsame.2) (fun h => hsame.1 ▸ h) hT
      exact ⟨u, hpush i u hu hT', hT'⟩
    · exact ⟨u', hpush i u' hget hT, hT⟩

/-- Raising flags gives nobody a trait, nor does making tasks, unless new tasks have it. -/
theorem of_amends (trait : Task.Trait T) {l : Licence} (h : r.Amends l r') (hn : ∀ i, ¬ l.works i)
    (hnew : l.makes → ∀ u : Task, u.coroutine = none → ¬ T u) : Inherits T r r' := by
  induction h with
  | refl r => exact .refl T r
  | trans _ _ ih ih' => exact ih.trans ih'
  | modify works _ => exact (hn _ works).elim
  | fail works _ _ => exact (hn _ works).elim
  | finish works => exact (hn _ works).elim
  | flagged h _ => exact .flagged trait h
  | create makes _ => exact .create trait _ _ _ _ fun u hco _ => hnew makes u hco
  | reap r => exact ⟨fun hu hT => ⟨_, hu, hT⟩⟩

theorem finish (trait : Task.Trait T) (r : Registry) (t : Nat) (v : Value) :
    Inherits T r ((r.modify t (·.finish v)).retire t) := by
  have h : Inherits T r (r.modify t (·.finish v)) :=
    .modify_kept trait (fun _ => Or.inl rfl) fun _ => Or.inr rfl
  refine ⟨fun hu' hT => ?_⟩
  rw [get?_retire] at hu'
  exact h.origin hu' hT

end Inherits

end Registry

section Traits

variable {T : Task → Prop} (trait : Task.Trait T)

include trait

namespace Machine

variable {m : Machine σ}

theorem inherits_suspend (m : Machine σ) (o : RunOptions) (t : Nat) (i : Interruption) :
    m.registry.Inherits T (m.suspend o t i).registry := by
  rw [registry_suspend]
  exact .modify_kept trait (fun _ => Or.inl rfl) fun _ => Or.inl rfl

theorem inherits_wrapUp (m : Machine σ) (o : RunOptions) (t : Nat) (held : Pending) (v : Value) :
    m.registry.Inherits T (m.wrapUp o t held v).registry := by
  cases hu : m.registry.get? t with
  | none =>
    have hnone : ∀ f : Task → Task, m.registry.modify t f = m.registry :=
      fun _ => Registry.modify_of_eq_none hu
    have hget : m.get? t = none := hu
    have hsame : m.wrapUp o t held v = m.finalize t v := by simp [wrapUp, holdForChildren, hget]
    rw [hsame]
    exact .finish trait ..
  | some u =>
    unfold wrapUp
    rcases holdForChildren_cases o hu held with ⟨m', he, _, hm⟩ | ⟨m', he, _, hm⟩
    · simp only [he, hm]
      exact .modify_kept trait (fun _ => Or.inl rfl) fun _ => Or.inr rfl
    · simp only [he]
      have h : m.registry.Inherits T m'.registry := by
        rw [hm]
        exact .modify_kept trait (fun _ => Or.inl rfl) fun _ => Or.inl rfl
      exact h.trans (.finish trait ..)

theorem inherits_fail (m : Machine σ) (o : RunOptions) (t : Nat) (e : Exn) {m' : Machine σ}
    (hm : m.fail o t e = some m') : m.registry.Inherits T m'.registry := by
  cases hu : m.get? t with
  | none =>
    simp only [fail, hu] at hm
    cases hm
  | some u =>
    cases herr : u.error with
    | some e' =>
      simp only [fail, hu, herr, Option.isSome_some, if_true] at hm
      cases hm
    | none =>
      rw [fail_eq o hu herr, Option.some.injEq] at hm
      subst hm
      have hfailed :
          m.registry.Inherits T (m.registry.modify t fun u => { u with error := some e }) :=
        .modify_kept trait (fun _ => Or.inl rfl) fun _ => Or.inl rfl
      have hcondemned : m.registry.Inherits T (m.condemn t u.children e).registry :=
        hfailed.trans (.flagged trait (Registry.cancelAll_flagged _ u.children fun _ => False))
      exact hcondemned.trans (inherits_wrapUp trait _ o t _ _)

theorem inherits_continueComposite (m : Machine σ) (k : Composite) :
    m.registry.Inherits T (m.continueComposite k).machine.registry := by
  unfold continueComposite
  split
  · exact .of_amends trait
      (l := ⟨fun _ => False, fun _ => False, fun _ _ => False, fun _ => True, False⟩)
      (m.amends_concludeComposite k fun _ _ => trivial) (fun _ => id) False.elim
  · dsimp only
    rw [create_eq]
    exact (Registry.Inherits.create trait _ _ _ _ fun _ => trait.bare).trans
      (.modify_kept (f := fun u => { u with running := true }) trait
      (fun _ => Or.inl rfl) fun _ => Or.inl rfl)

/-- Where new tasks do not have the trait, interpretation gives it to nobody. -/
theorem inherits_interpretEffect (hnew : ∀ u : Task, u.coroutine = none → ¬ T u) (m : Machine σ)
    (w : World σ) (t : Nat) (e : Effect) (b : Bool) :
    m.registry.Inherits T (m.interpretEffect w t e b).machine.registry := by
  have hmakes :
      ∀ {r : Registry}, m.registry.Amends ⟨fun _ => False, fun _ => False, fun _ _ => False,
      fun _ => True, True⟩ r → m.registry.Inherits T r :=
        fun h => .of_amends trait h (fun _ => id) fun _ => hnew
  unfold interpretEffect
  split
  · exact hmakes (m.amends_interpretCall t trivial w _)
  · exact hmakes (m.amends_interpretFork t trivial w _ _)
  · exact hmakes (m.amends_interpretJoin _)
  · exact m.inherits_continueComposite trait _
  · exact m.inherits_continueComposite trait _
  · exact hmakes (m.amends_interpretCancel _)
  · exact .flagged trait (Registry.cancelTree_flagged _ _ fun _ => False)
  · unfold interpretCancelled
    split <;> exact .refl T _
  · exact hmakes (m.amends_create trivial "delay" _ (some t) false none nofun)
  · exact hmakes (m.amends_interpretExternal t trivial w _ _)

theorem inherits_interpret (hnew : ∀ u : Task, u.coroutine = none → ¬ T u) (m : Machine σ)
    (w : World σ) (o : RunOptions) (t : Nat) (effect : Value)
    (b : Bool) : m.registry.Inherits T (m.interpret w o t effect b).machine.registry := by
  unfold interpret tick
  dsimp only
  split
  · rename_i heq
    split at heq
    · cases heq
      exact .refl T _
    · cases heq
  · rename_i heq
    split at heq
    · cases heq
    · cases heq
      split
      · exact .refl T _
      · exact inherits_interpretEffect trait hnew { m with steps := m.steps + 1 } w t _ b
      · exact .refl T _

end Machine

namespace Config

variable {m : Machine σ}

theorem inherits_withCoroutine (m : Machine σ) (stack : List Frame) (t : Nat)
    (go : Coroutine → σ → Progress × Coroutine × σ) :
    m.registry.Inherits T (withCoroutine m stack t go).machine.registry := by
  have hstop :
      ∀ r : Registry, r.Inherits T (r.modify t fun task => { task with running := false }) :=
    fun _ => .modify_kept trait (fun _ => Or.inl rfl) fun _ => Or.inl rfl
  unfold withCoroutine
  cases hco : (m.get? t).bind (·.coroutine) with
  | none => exact hstop _
  | some c =>
    obtain ⟨u, hu, hc⟩ := Option.bind_eq_some_iff.mp hco
    have hkeep : ∀ c', m.registry.Inherits T
        (m.registry.modify t fun task => { task with coroutine := some c' }) := by
      intro c'
      refine .modify fun v hv => trait.kept (Or.inl rfl) fun _ => ?_
      rw [show m.registry.get? t = some u from hu, Option.some.injEq] at hv
      rw [← hv, hc]
      rfl
    dsimp only
    obtain ⟨progress, c', s⟩ := go c m.outer
    cases progress with
    | suspended effect => exact hkeep c'
    | finished v => exact .trans (hkeep c') (hstop _)
    | raised e =>
      unfold afterProgress
      dsimp only
      split
      · exact .trans (hkeep c') (hstop _)
      · exact hkeep c'

theorem inherits_runTask (m : Machine σ) (stack : List Frame) (t : Nat) :
    m.registry.Inherits T (runTask m stack t).machine.registry := by
  have htaken :
      m.registry.Inherits T (m.modify t fun task => { task with interruption := none }).registry :=
    .modify_kept trait (fun _ => Or.inl rfl) fun _ => Or.inl rfl
  unfold runTask
  split
  · exact .refl T _
  · split
    · exact .refl T _
    · exact .refl T _
    · dsimp only
      split
      · split
        · exact htaken.trans (.finish trait ..)
        · exact htaken.trans (.finish trait ..)
        · exact htaken
      · split <;> exact htaken

theorem inherits_propagate (o : RunOptions) (m : Machine σ)
    (stack : List Frame) (t : Nat) (e : Exn) :
    m.registry.Inherits T (propagate o m stack t e).machine.registry := by
  have habandon : ∀ p, m.registry.Inherits T (abandon m p t).2.registry := by
    intro p
    have hdrop : m.registry.Inherits T
        (m.registry.modify p fun task => { task with interruption := none }) :=
      .modify_kept trait (fun _ => Or.inl rfl) fun _ => Or.inl rfl
    unfold abandon
    split
    · exact .refl T _
    · rename_i i _
      dsimp only
      split
      · exact hdrop
      · exact hdrop.trans (.flagged trait (Registry.letGoOthers_flagged _ p t i.pending.waitingOn))
  unfold propagate
  split
  · exact .refl T _
  · rename_i u _
    cases u.parent with
    | none =>
      dsimp only
      split <;> exact .refl T _
    | some p =>
      dsimp only
      split
      · exact .refl T _
      · split
        · exact .refl T _
        · rename_i up _
          split
          · exact .refl T _
          · have h := habandon p
            generalize abandon m p t = dropped at h ⊢
            obtain ⟨direct, m'⟩ := dropped
            dsimp only
            split
            · exact h
            · cases direct with
              | true => exact h
              | false =>
                exact h.trans
                  (.flagged trait (Registry.cancelAll_flagged _ up.children fun _ => False))

theorem inherits_continueRound (m : Machine σ) (stack : List Frame) (finished rest : List Nat) :
    m.registry.Inherits T (continueRound m stack finished rest).machine.registry := by
  cases rest with
  | nil => exact ⟨fun hu hco => ⟨_, hu, hco⟩⟩
  | cons t rest =>
    have hchildren : m.registry.Inherits T (m.registry.modify t (·.removeChildren finished)) :=
      .modify_kept trait (fun _ => Or.inl rfl) fun _ => Or.inl rfl
    unfold continueRound
    dsimp only
    split
    · exact .refl T _
    · split
      · exact .refl T _
      · split
        · exact hchildren
        · rename_i i _
          split
          · exact hchildren
          · cases hs : (m.modify t fun task => task.removeChildren finished).registry.settle t i
              finished with
            | error refusal => exact hchildren
            | ok settled =>
              obtain ⟨ok, i', r'⟩ := settled
              have hsettle : (m.registry.modify t (·.removeChildren finished)).Inherits T r' :=
                .of_amends trait
                  (l := ⟨fun _ => False, fun _ => False, fun _ _ => False, fun _ => True, False⟩)
                  (Registry.amends_settle (fun _ _ _ => trivial) hs) (fun _ => id) False.elim
              have h :=
                hchildren.trans (hsettle.trans (.modify_kept (t := t) (f := (·.awaiting i')) trait
                (fun _ => Or.inl rfl) fun _ => Or.inl rfl))
              dsimp only
              split <;> exact h

omit trait in
theorem inherits_bubble (o : RunOptions) (m : Machine σ) (stack : List Frame)
    (finished : List Nat) :
    m.registry.Inherits T (bubble o m stack finished).machine.registry := by
  rcases bubble_cases o m stack finished with ⟨_, heq⟩ | ⟨_, ⟨trace, heq⟩ | ⟨_, heq⟩⟩ <;>
    rw [heq] <;> exact .refl T _

omit trait in
theorem inherits_continueBatch (m : Machine σ) (stack : List Frame) (rest : List Nat) :
    m.registry.Inherits T (continueBatch m stack rest).machine.registry := by
  unfold continueBatch
  split
  · exact ⟨fun hu hco => ⟨_, hu, hco⟩⟩
  · split
    · split <;> exact .refl T _
    · exact .refl T _

omit trait in
theorem inherits_continueLoop (o : RunOptions) (m : Machine σ) (root : Nat) :
    m.registry.Inherits T (continueLoop o m root).machine.registry := by
  rcases continueLoop_cases o m root with ⟨_, heq⟩ | ⟨_, ⟨f, heq⟩ | ⟨_, _, trace, heq⟩⟩ <;>
    rw [heq] <;> exact .refl T _

theorem inherits_proceed (o : RunOptions) (m : Machine σ) (stack : List Frame) :
    m.registry.Inherits T (proceed o m stack).machine.registry := by
  unfold proceed
  split
  · exact .refl T _
  · exact .refl T _
  · exact .refl T _
  · exact m.inherits_continueComposite trait _
  · rename_i child _
    dsimp only [ofOutcome]
    unfold Machine.afterFork
    split
    · split
      · split <;> exact .refl T _
      · exact .refl T _
    · exact .refl T _
  · exact inherits_continueBatch ..
  · exact inherits_continueRound trait ..
  · exact inherits_continueLoop ..

/-- Whoever has the trait in `c` had it in `r`, or has it by a coroutine that is just about to be
resumed with nothing. -/
structure Springs (T : Task → Prop) (r : Registry) (c : Config σ) : Prop where
  origin : ∀ {i u'}, c.machine.registry.get? i = some u' → T u' →
    (∃ u, r.get? i = some u ∧ T u) ∨
      (c.control = .drive i (.send .null) ∧ ∃ u co, ¬ T u ∧ u' = { u with coroutine := some co })

omit trait in
theorem Springs.of_inherits {r : Registry} {c : Config σ} (h : r.Inherits T c.machine.registry) :
    c.Springs T r :=
  ⟨fun hu' hT => Or.inl (h.origin hu' hT)⟩

omit trait in
/-- A task is given the coroutine of a generator, and driven. -/
theorem springs_opened {r : Registry} (h : r.Inherits T m.registry)
    (stack : List Frame) (t g : Nat) :
    Springs T r ⟨m.modify t fun task => { task with coroutine := some (.ofGenerator g) }, stack,
      .drive t (.send .null)⟩ := by
  refine ⟨fun {i u'} hu' hT => ?_⟩
  by_cases hi : i = t
  · subst hi
    have hget :
        (m.registry.modify i fun task => { task with coroutine := some (.ofGenerator g) }).get? i =
        some u' := hu'
    rw [Registry.get?_modify, if_pos rfl] at hget
    obtain ⟨u, hu, rfl⟩ := Option.map_eq_some_iff.mp hget
    by_cases had : T u
    · exact Or.inl (h.origin hu had)
    · exact Or.inr ⟨rfl, u, _, had, rfl⟩
  · have hget : m.registry.get? i = some u' := (Registry.get?_modify_ne hi).symm.trans hu'
    exact Or.inl (h.origin hget hT)

theorem springs_deliver (w : World σ) (o : RunOptions) (m : Machine σ) (a : Answer)
    (stack : List Frame) :
    (deliver w o m a stack).Springs T m.registry := by
  have hstop :
      ∀ i, m.registry.Inherits T (m.registry.modify i fun task => { task with running := false }) :=
    fun _ => .modify_kept trait (fun _ => Or.inl rfl) fun _ => Or.inl rfl
  unfold deliver
  split
  · rename_i t below
    cases a with
    | advance v => exact .of_inherits (inherits_withCoroutine trait ..)
    | enter g => exact .of_inherits (inherits_withCoroutine trait ..)
    | block i =>
      exact .of_inherits (.trans (hstop t) (Machine.inherits_suspend trait (m.modify t _) o t i))
  · rename_i p below
    cases a with
    | advance v => exact .of_inherits (hstop p)
    | enter g => exact springs_opened (m := m.modify p _) (hstop p) below p g
    | block i =>
      exact .of_inherits (.trans (hstop p) (Machine.inherits_suspend trait (m.modify p _) o p i))
  · exact .of_inherits (.refl T _)

theorem springs_start (w : World σ) (o : RunOptions) (m : Machine σ)
    (stack : List Frame) (t : Nat) :
    (start w o m stack t).Springs T m.registry := by
  have hentry :
      m.registry.Inherits T (m.registry.modify t fun task => { task with entry := none }) :=
    .modify_kept trait (fun _ => Or.inr rfl) fun _ => Or.inl rfl
  have hafter : ∀ (m' : Machine σ), m.registry.Inherits T m'.registry → ∀ produced,
      (afterEntry o m' stack t produced).Springs T m.registry := by
    intro m' hm produced
    unfold afterEntry
    split
    · exact springs_opened hm stack t _
    · exact .of_inherits (.trans hm (m'.inherits_wrapUp trait o t _ _))
    · split
      · exact .of_inherits (by simpa only [registry_handling] using hm)
      · exact .of_inherits hm
  cases hu : m.get? t with
  | none =>
    simp only [start, hu]
    exact .of_inherits (.refl T _)
  | some u =>
    cases he : u.entry with
    | none =>
      simp only [start, hu, he]
      exact .of_inherits (.trans hentry (Machine.inherits_wrapUp trait (m.modify t _) o t _ _))
    | some entry =>
      rw [start_eq w o hu he]
      cases entry with
      | planned plan call =>
        refine hafter _ ?_ _
        rw [Machine.registry_produce]
        exact hentry
      | constant v => exact hafter _ hentry _

/-- A step gives the trait to nobody but a task that is about to be resumed for the first time,
unless the interpretation of an effect makes a task that has it. -/
theorem springs_step (w : World σ) (o : RunOptions) (c : Config σ)
    (hnew : (∃ t effect b, c.control = .interpret t effect b) →
      ∀ u : Task, u.coroutine = none → ¬ T u) :
    (c.step w o).Springs T c.machine.registry := by
  obtain ⟨m, stack, control⟩ := c
  cases control with
  | done => exact .of_inherits (inherits_proceed trait o m stack)
  | raised e =>
    refine .of_inherits ?_
    show m.registry.Inherits T (catchException w m e stack).machine.registry
    unfold catchException
    split
    · exact inherits_withCoroutine trait ..
    · exact .modify_kept trait (fun _ => Or.inl rfl) fun _ => Or.inl rfl
    · exact .refl T _
    · exact .refl T _
  | abort f =>
    refine .of_inherits ?_
    show m.registry.Inherits T (unwind m f stack).machine.registry
    unfold unwind
    split
    · exact .modify_kept trait (fun _ => Or.inl rfl) fun _ => Or.inl rfl
    · exact .refl T _
    · exact .refl T _
  | answer a => exact springs_deliver trait w o m a stack
  | drive t s =>
    have hrun :
        m.registry.Inherits T (m.registry.modify t fun task => { task with running := true }) :=
      .modify_kept trait (fun _ => Or.inl rfl) fun _ => Or.inl rfl
    exact .of_inherits (.trans hrun (inherits_withCoroutine trait (m.modify t _) stack t _))
  | interpret t effect b =>
    exact .of_inherits (m.inherits_interpret trait (hnew ⟨t, effect, b, rfl⟩) w o t effect b)
  | runTask t => exact .of_inherits (inherits_runTask trait m stack t)
  | start t => exact springs_start trait w o m stack t
  | complete t v => exact .of_inherits (m.inherits_wrapUp trait o t _ v)
  | fail t e =>
    refine .of_inherits ?_
    unfold step
    dsimp only
    split
    · rename_i m' hm
      exact m.inherits_fail trait o t e hm
    · exact .refl T _
  | propagate t e => exact .of_inherits (inherits_propagate trait o m stack t e)
  | bubble finished => exact .of_inherits (inherits_bubble o m stack finished)

end Config

end Traits

/-- **A coroutine is resumed with nothing when it comes to be.** -/
theorem Config.coroutine_step (w : World σ) (o : RunOptions) (c : Config σ) {i : Nat} {u' : Task}
    (hu' : (c.step w o).machine.registry.get? i = some u') (hco : u'.coroutine.isSome = true) :
    (∃ u, c.machine.registry.get? i = some u ∧ u.coroutine.isSome = true) ∨
      (c.step w o).control = .drive i (.send .null) :=
  ((springs_step Task.trait_coroutine w o c fun _ _ hnone h => by
    simp [hnone] at h).origin hu' hco).imp_right And.left

end Rehearsal
