import Rehearsal.Proofs.Engine.Amends
import Rehearsal.Proofs.Engine.Composites
import Rehearsal.Proofs.Engine.Propagation

/-!
# A step works on one task at most

Every step keeps within the licence of its configuration, sound or not: it works on the task that
the control names, or that the top frame drives, or whose turn of a round it is. Interpreting an
effect works on no task that was there. Only the task that the control says fails is made to fail,
and only the members of a race, or the siblings of what has failed, are let go.
-/
namespace Rehearsal

variable {σ : Type}

/-- Settling only lets go of the losers of a race. -/
theorem Registry.amends_settle {l : Licence} {r r' : Registry} {t : Nat} {i i' : Interruption}
    {ids : List Nat} {ok : Bool}
    (hfree : i.kind = .race → ∀ d ∈ i.pending.waitingOn, l.frees d)
    (h : r.settle t i ids = .ok (ok, i', r')) : r.Amends l r' := by
  unfold settle at h
  split at h
  · split at h
    · split at h <;> cases h <;> exact .refl _
    · cases h
      exact .refl _
  · split at h
    · split at h
      · split at h
        · cases h
          exact .refl _
        · cases h
      · cases h
        exact .refl _
    · cases h
    · cases h
  · split at h
    · dsimp only at h
      split at h <;> cases h <;> exact .refl _
    · cases h
      exact .refl _
  · split at h
    · dsimp only at h
      split at h <;> cases h <;> exact .refl _
    · cases h
      exact .refl _
  · rename_i hkind
    split at h
    · cases h
      exact .refl _
    · cases h
      refine .flagged (.foldl _ fun r' _ d hd => ?_ : Flagged _ _ (· ∈ i.pending.waitingOn))
        (hfree hkind)
      split
      · exact .refl _ _
      · refine (letGo_flagged r' d).mono ?_
        rintro _ rfl
        exact (List.mem_filter.mp hd).1

namespace Machine

variable {l : Licence} (m : Machine σ) (o : RunOptions) (t : Nat)

theorem amends_suspend (ht : l.works t) (i : Interruption) :
    m.registry.Amends l (m.suspend o t i).registry := by
  rw [registry_suspend]
  exact .modify ht fun _ => .of_eq rfl rfl rfl rfl rfl rfl rfl id

theorem amends_holdForChildren (ht : l.works t) (held : Pending) :
    m.registry.Amends l (m.holdForChildren o t held).2.registry := by
  have hlive : ∀ live, m.registry.Amends l
      (m.modify t fun u => { u with children := live }).registry :=
    fun _ => .modify ht fun _ => .of_eq rfl rfl rfl rfl rfl rfl rfl id
  have hclose : ∀ m : Machine σ, m.registry.Amends l
      (m.modify t fun u => { u with coroutine := none }).registry :=
    fun _ => .modify ht fun _ => .of_eq rfl rfl rfl rfl rfl rfl rfl id
  unfold holdForChildren
  split
  · exact .refl _
  · dsimp only
    split
    · exact hlive _
    · exact (hlive _).trans ((hclose _).trans (amends_suspend _ o t ht _))

theorem amends_wrapUp (ht : l.works t) (held : Pending) (v : Value) :
    m.registry.Amends l (m.wrapUp o t held v).registry := by
  have h := m.amends_holdForChildren o t ht held
  unfold wrapUp
  generalize m.holdForChildren o t held = outcome at h ⊢
  obtain ⟨ok, m'⟩ := outcome
  cases ok with
  | true => exact h
  | false => exact h.trans (.finish ht)

theorem amends_complete (ht : l.works t) (v : Value) :
    m.registry.Amends l (m.complete o t v).registry :=
  m.amends_wrapUp o t ht (.returned v) v

theorem amends_fail (ht : l.works t) (e : Exn) (he : l.fails t e) {m' : Machine σ}
    (hm : m.fail o t e = some m') : m.registry.Amends l m'.registry := by
  cases hu : m.get? t with
  | none =>
    simp only [fail, hu] at hm
    cases hm
  | some u =>
    cases herr : u.error with
    | some e' =>
      simp only [fail, hu, herr, Option.isSome_some, if_true] at hm
      cases hm
    | none =>
      rw [fail_eq o hu herr, Option.some.injEq] at hm
      subst hm
      have hfailed :
          m.registry.Amends l (m.registry.modify t fun u => { u with error := some e }) := by
        refine .fail ht he fun u' hu' => ?_
        rw [show m.registry.get? t = some u from hu, Option.some.injEq] at hu'
        exact hu' ▸ herr
      have h : m.registry.Amends l (m.condemn t u.children e).registry :=
        hfailed.trans (.flagged (Registry.cancelAll_flagged _ u.children fun _ => False)
          fun _ => False.elim)
      exact h.trans (amends_wrapUp _ o t ht _ _)

theorem amends_produce (w : World σ) (plan : CallPlan) (call : Call) :
    m.registry.Amends l (m.produce w plan call).2.registry := by
  rw [registry_produce]
  exact .refl _

theorem amends_create (hm : l.makes) (name : String) (wait : Wait) (parent : Option Nat)
    (detached : Bool) (entry : Option Entry) (hp : detached = true → parent = none) :
    m.registry.Amends l (m.create name wait parent detached entry).1.registry := by
  rw [create_eq]
  exact .create hm hp

/-! ### Interpretation works on no task that was there -/

theorem amends_interpretCall (hm : l.makes) (w : World σ) (call : Call) :
    m.registry.Amends l (m.interpretCall w t call).machine.registry := by
  unfold interpretCall
  obtain ⟨answer, s⟩ := w.plan m.view call false m.outer
  cases answer with
  | error f => exact .refl _
  | ok plan =>
    dsimp only
    split
    · have h : m.registry.Amends l
          (Machine.produce w { m with outer := s } plan call).2.registry :=
        amends_produce { m with outer := s } w plan call
      generalize Machine.produce w { m with outer := s } plan call = made at h ⊢
      obtain ⟨produced, m'⟩ := made
      cases produced with
      | error e => exact h
      | ok v =>
        dsimp only
        unfold produced
        split <;> exact h
    · exact amends_create { m with outer := s } hm call.name plan.wait (some t) false _ nofun

theorem amends_interpretFork (hm : l.makes) (w : World σ) (call : Call) (detached : Bool) :
    m.registry.Amends l (m.interpretFork w t call detached).machine.registry := by
  unfold interpretFork
  obtain ⟨answer, s⟩ := w.plan m.view call true m.outer
  cases answer with
  | error f => exact .refl _
  | ok plan =>
    have h := amends_create { m with outer := s } hm call.name plan.wait
      (if detached then none else some (m.registry.coroutineOwner t)) detached
      (some (.planned plan call)) fun hd => by rw [if_pos hd]
    dsimp only
    split <;> exact h

theorem amends_interpretJoin (targets : Targets) :
    m.registry.Amends l (m.interpretJoin targets).machine.registry := by
  unfold interpretJoin
  split
  · exact .refl _
  · dsimp only
    split <;> exact .refl _

theorem amends_interpretCancel (targets : Targets) :
    m.registry.Amends l (m.interpretCancel targets).machine.registry := by
  unfold interpretCancel
  split
  · exact .refl _
  · exact .flagged (Registry.cancelAll_flagged _ _ fun _ => False) fun _ => False.elim

theorem amends_concludeComposite (c : Composite) (hfree : ∀ e ∈ c.made, l.frees e.2) :
    m.registry.Amends l (m.concludeComposite c).machine.registry := by
  rw [concludeComposite_eq]
  split
  · exact .refl _
  · dsimp only
    by_cases hdecided : (c.isRace && decide ((m.registry.settleFinished c.shape).waitingOn.length <
        (c.made.map (·.2)).length)) = true
    · rw [if_pos hdecided]
      refine .flagged (Registry.letGoAll_flagged _ _) fun d hd => ?_
      have hmem := (Pending.mem_waitingOn_settleFinished.mp hd).1
      rw [c.waitingOn_shape, List.mem_map] at hmem
      obtain ⟨e, he, rfl⟩ := hmem
      exact hfree e he
    · rw [if_neg hdecided]
      by_cases hnone : (m.registry.settleFinished c.shape).waitingOn.isEmpty = true
      · rw [if_pos hnone]
        exact .refl _
      · rw [if_neg hnone]
        exact .refl _

theorem amends_continueComposite (c : Composite) (hm : c.rest ≠ [] → l.makes)
    (hw : l.works m.registry.size) (hd : l.drives m.registry.size)
    (hfree : c.rest = [] → ∀ e ∈ c.made, l.frees e.2) :
    m.registry.Amends l (m.continueComposite c).machine.registry := by
  unfold continueComposite
  split
  · rename_i hrest
    exact m.amends_concludeComposite c (hfree hrest)
  · rename_i hrest
    have hmakes : l.makes := hm (by rw [hrest]; exact List.cons_ne_nil _ _)
    dsimp only
    rw [create_eq]
    have hfalse : false = true → some c.task = none := nofun
    refine .trans (.create hmakes hfalse)
      (.modify (f := fun task => { task with running := true }) hw fun _ => ?_)
    exact ⟨rfl, rfl, rfl, rfl, rfl, rfl, rfl, fun _ => Or.inr hd⟩

theorem amends_interpretExternal (hm : l.makes) (w : World σ) (e : Effect) (inComposite : Bool) :
    m.registry.Amends l (m.interpretExternal w t e inComposite).machine.registry := by
  unfold interpretExternal
  split
  · exact .refl _
  · rename_i handler _
    dsimp only
    obtain ⟨reaction, s⟩ := handler m.view ⟨⟨t, m.nameOf t, true⟩, inComposite, m.steps⟩ m.outer
    cases reaction with
    | error f => exact .refl _
    | ok reaction =>
      cases reaction with
      | advance v => exact .refl _
      | defer v wait name =>
        exact amends_create { m with outer := s } hm (deferredName name) wait (some t) false _ nofun
      | invalid v => exact .refl _

theorem amends_interpretEffect (hm : l.makes) (hw : l.works m.registry.size)
    (hd : l.drives m.registry.size) (w : World σ) (e : Effect) (inComposite : Bool) :
    m.registry.Amends l (m.interpretEffect w t e inComposite).machine.registry := by
  unfold interpretEffect
  split
  · exact m.amends_interpretCall t hm w _
  · exact m.amends_interpretFork t hm w _ _
  · exact m.amends_interpretJoin _
  · exact m.amends_continueComposite _ (fun _ => hm) hw hd nofun
  · exact m.amends_continueComposite _ (fun _ => hm) hw hd nofun
  · exact m.amends_interpretCancel _
  · exact .flagged (Registry.cancelTree_flagged _ _ fun _ => False) fun _ => False.elim
  · unfold interpretCancelled
    split <;> exact .refl _
  · exact m.amends_create hm "delay" _ (some t) false none nofun
  · exact m.amends_interpretExternal t hm w _ _

theorem amends_interpret (hm : l.makes) (hw : l.works m.registry.size)
    (hd : l.drives m.registry.size) (w : World σ) (effect : Value) (inComposite : Bool) :
    m.registry.Amends l (m.interpret w o t effect inComposite).machine.registry := by
  unfold interpret tick
  dsimp only
  split
  · rename_i heq
    split at heq
    · cases heq
      exact .refl _
    · cases heq
  · rename_i heq
    split at heq
    · cases heq
    · cases heq
      split
      · exact .refl _
      · exact amends_interpretEffect { m with steps := m.steps + 1 } t hm hw hd w _ _
      · exact .refl _

end Machine

namespace Config

/-- The task that a configuration works on next, and whether it sets it running. -/
def footprint (c : Config σ) : Footprint where
  works i :=
    match c.control, c.stack with
    | .done, .round _ (t :: _) :: _ => i = t
    | .raised _, f :: _ | .answer _, f :: _ | .abort _, f :: _ => f.runner? = some i
    | .drive t _, _ | .runTask t, _ | .start t, _ | .complete t _, _ | .fail t _, _ => i = t
    | .propagate t _, _ => ∃ u, c.machine.get? t = some u ∧ u.parent = some i
    | _, _ => False
  drives i := ∃ s, c.control = .drive i s

/-- What the next step may do: within the footprint, and with the tasks that it makes. -/
def licence (c : Config σ) : Licence where
  works i := c.footprint.works i ∨ c.machine.registry.size ≤ i
  drives i := c.footprint.drives i ∨ c.machine.registry.size ≤ i
  fails t e := c.control = .fail t e
  frees d :=
    match c.control, c.stack with
    | .done, .composite k :: _ => k.rest = [] ∧ ∃ e ∈ k.made, e.2 = d
    | .done, .round _ (t :: _) :: _ => ∃ u i, c.machine.get? t = some u ∧
      u.interruption = some i ∧ i.answer = none ∧ i.kind = .race ∧ d ∈ i.pending.waitingOn
    | .propagate t _, _ => d ≠ t ∧ ∃ u p v, c.machine.get? t = some u ∧ u.parent = some p ∧
      c.machine.get? d = some v ∧ v.parent = some p
    | _, _ => False
  makes :=
    match c.control, c.stack with
    | .interpret .., _ => True
    | .done, .composite k :: _ => k.rest ≠ []
    | _, _ => False

variable {l : Licence} (m : Machine σ) (stack : List Frame) (t : Nat)

theorem amends_withCoroutine (ht : l.works t) (go : Coroutine → σ → Progress × Coroutine × σ) :
    m.registry.Amends l (withCoroutine m stack t go).machine.registry := by
  have hstop : ∀ m : Machine σ, m.registry.Amends l
      (m.modify t fun task => { task with running := false }).registry :=
    fun _ => .modify ht fun _ => .of_eq rfl rfl rfl rfl rfl rfl rfl nofun
  have hkeep : ∀ (m : Machine σ) c, m.registry.Amends l
      (m.modify t fun task => { task with coroutine := some c }).registry :=
    fun _ _ => .modify ht fun _ => .of_eq rfl rfl rfl rfl rfl rfl rfl id
  unfold withCoroutine
  split
  · exact hstop m
  · rename_i c _
    obtain ⟨progress, c', s⟩ := go c m.outer
    have h := hkeep { m with outer := s } c'
    cases progress with
    | suspended effect => exact h
    | finished v => exact h.trans (hstop _)
    | raised e =>
      dsimp only
      unfold afterProgress
      dsimp only
      split
      · exact h.trans (hstop _)
      · exact h

theorem amends_deliver (w : World σ) (o : RunOptions) (a : Answer) :
    m.registry.Amends (licence ⟨m, stack, .answer a⟩) (deliver w o m a stack).machine.registry := by
  have hstop : ∀ (t : Nat) (m' : Machine σ), (licence ⟨m, stack, .answer a⟩).works t →
      m'.registry.Amends (licence ⟨m, stack, .answer a⟩)
        (m'.modify t fun task => { task with running := false }).registry :=
    fun t _ ht => .modify ht fun _ => .of_eq rfl rfl rfl rfl rfl rfl rfl nofun
  unfold deliver
  split
  · rename_i t below
    have ht : (licence ⟨m, .driving t :: below, .answer a⟩).works t := Or.inl rfl
    split
    · exact amends_withCoroutine m _ t ht _
    · exact amends_withCoroutine m _ t ht _
    · exact (hstop t m ht).trans (Machine.amends_suspend _ o t ht _)
  · rename_i p below
    have hp : (licence ⟨m, .member p :: below, .answer a⟩).works p := Or.inl rfl
    dsimp only
    split
    · exact hstop p m hp
    · exact (hstop p m hp).trans (.modify hp fun _ => .of_eq rfl rfl rfl rfl rfl rfl rfl id)
    · exact (hstop p m hp).trans (Machine.amends_suspend _ o p hp _)
  · exact .refl _

theorem amends_catchException (w : World σ) (e : Exn) :
    m.registry.Amends (licence ⟨m, stack, .raised e⟩)
      (catchException w m e stack).machine.registry := by
  unfold catchException
  split
  · rename_i t below
    exact amends_withCoroutine m below t (Or.inl rfl) _
  · exact .modify (Or.inl rfl) fun _ => .of_eq rfl rfl rfl rfl rfl rfl rfl nofun
  · exact .refl _
  · exact .refl _

theorem amends_unwind (f : Failure) :
    m.registry.Amends (licence ⟨m, stack, .abort f⟩) (unwind m f stack).machine.registry := by
  unfold unwind
  split
  · exact .modify (Or.inl rfl) fun _ => .of_eq rfl rfl rfl rfl rfl rfl rfl nofun
  · exact .refl _
  · exact .refl _

theorem amends_afterEntry (o : RunOptions) (ht : l.works t) (produced : Except Exn Value) :
    m.registry.Amends l (afterEntry o m stack t produced).machine.registry := by
  unfold afterEntry
  split
  · exact .modify ht fun _ => .of_eq rfl rfl rfl rfl rfl rfl rfl id
  · exact m.amends_complete o t ht _
  · split
    · simpa only [registry_handling] using .refl _
    · exact .refl _

theorem amends_start (w : World σ) (o : RunOptions) (ht : l.works t) :
    m.registry.Amends l (start w o m stack t).machine.registry := by
  have hentry : m.registry.Amends l
      (m.modify t fun task => { task with entry := none }).registry :=
    .modify ht fun _ => .of_eq rfl rfl rfl rfl rfl rfl rfl id
  cases hu : m.get? t with
  | none =>
    simp only [start, hu]
    exact .refl _
  | some u =>
    cases he : u.entry with
    | none =>
      simp only [start, hu, he]
      exact hentry.trans (Machine.amends_complete _ o t ht _)
    | some entry =>
      rw [start_eq w o hu he]
      cases entry with
      | planned plan call =>
        exact hentry.trans ((Machine.amends_produce _ w plan call).trans
          (amends_afterEntry _ stack t o ht _))
      | constant v => exact hentry.trans (amends_afterEntry _ stack t o ht _)

theorem amends_runTask (ht : l.works t) :
    m.registry.Amends l (runTask m stack t).machine.registry := by
  have htaken : m.registry.Amends l
      (m.modify t fun task => { task with interruption := none }).registry :=
    .modify ht fun _ => .of_eq rfl rfl rfl rfl rfl rfl rfl id
  unfold runTask
  split
  · exact .refl _
  · split
    · exact .refl _
    · exact .refl _
    · dsimp only
      split
      · split
        · exact htaken.trans (.finish ht)
        · exact htaken.trans (.finish ht)
        · exact htaken
      · split <;> exact htaken

theorem amends_abandon {parent failed : Nat} (hp : l.works parent)
    (hfree : ∀ d v, d ≠ failed → m.get? d = some v → v.parent = some parent → l.frees d) :
    m.registry.Amends l (abandon m parent failed).2.registry := by
  have hdrop : m.registry.Amends l
      (m.registry.modify parent fun task => { task with interruption := none }) :=
    .modify hp fun _ => .of_eq rfl rfl rfl rfl rfl rfl rfl id
  unfold abandon
  split
  · exact .refl _
  · rename_i i _
    dsimp only
    split
    · exact hdrop
    · refine hdrop.trans
        (.flagged (Registry.letGoOthers_flagged _ parent failed i.pending.waitingOn) ?_)
      rintro d ⟨hne, v, hv, hvp⟩
      rw [Registry.get?_modify] at hv
      split at hv
      · obtain ⟨v', hv', rfl⟩ := Option.map_eq_some_iff.mp hv
        exact hfree d v' hne hv' hvp
      · exact hfree d v hne hv hvp

theorem amends_propagate (o : RunOptions) (e : Exn) :
    m.registry.Amends (licence ⟨m, stack, .propagate t e⟩)
      (propagate o m stack t e).machine.registry := by
  unfold propagate
  split
  · exact .refl _
  · rename_i u hu
    cases hp : u.parent with
    | none =>
      dsimp only
      split <;> exact .refl _
    | some p =>
      have hw : (licence ⟨m, stack, .propagate t e⟩).works p := Or.inl ⟨u, hu, hp⟩
      dsimp only
      split
      · exact .refl _
      · split
        · exact .refl _
        · rename_i parent _
          split
          · exact .refl _
          · have h := amends_abandon m hw fun d v hne hv hvp => ⟨hne, u, p, v, hu, hp, hv, hvp⟩
            generalize abandon m p t = dropped at h ⊢
            obtain ⟨direct, m'⟩ := dropped
            dsimp only
            split
            · exact h
            · cases direct with
              | true => exact h
              | false =>
                exact h.trans
                  (.flagged (Registry.cancelAll_flagged _ parent.children fun _ => False)
                  fun _ => False.elim)

theorem amends_bubble (o : RunOptions) (finished : List Nat) :
    m.registry.Amends l (bubble o m stack finished).machine.registry := by
  rcases bubble_cases o m stack finished with ⟨_, heq⟩ | ⟨_, ⟨trace, heq⟩ | ⟨_, heq⟩⟩ <;>
    · rw [heq]
      exact .refl _

theorem amends_continueRound (finished rest : List Nat) :
    m.registry.Amends (licence ⟨m, .round finished rest :: stack, .done⟩)
      (continueRound m stack finished rest).machine.registry := by
  cases rest with
  | nil => exact .reap _
  | cons t rest =>
    have ht : (licence ⟨m, .round finished (t :: rest) :: stack, .done⟩).works t := Or.inl rfl
    have hchildren : m.registry.Amends (licence ⟨m, .round finished (t :: rest) :: stack, .done⟩)
        (m.registry.modify t (·.removeChildren finished)) :=
      .modify ht fun _ => .of_eq rfl rfl rfl rfl rfl rfl rfl id
    unfold continueRound
    dsimp only
    split
    · exact .refl _
    · rename_i u hu
      split
      · exact .refl _
      · split
        · exact hchildren
        · rename_i i hi
          split
          · exact hchildren
          · rename_i hopen
            have hnone : i.answer = none := by
              simpa [Interruption.resolved] using hopen
            cases hs : (m.modify t fun task => task.removeChildren finished).registry.settle t i
                finished with
            | error refusal => exact hchildren
            | ok settled =>
              obtain ⟨ok, i', r'⟩ := settled
              have hsettle := Registry.amends_settle
                (l := licence ⟨m, .round finished (t :: rest) :: stack, .done⟩)
                (fun hk d hd => ⟨u, i, hu, hi, hnone, hk, hd⟩) hs
              have h := hchildren.trans (hsettle.trans
                (.modify (f := (·.awaiting i')) ht fun _ => .of_eq rfl rfl rfl rfl rfl rfl rfl id))
              dsimp only
              split <;> exact h

theorem amends_continueLoop (o : RunOptions) (root : Nat) :
    m.registry.Amends l (continueLoop o m root).machine.registry := by
  rcases continueLoop_cases o m root with ⟨_, heq⟩ | ⟨_, ⟨f, heq⟩ | ⟨_, _, trace, heq⟩⟩ <;>
    · rw [heq]
      exact .refl _

theorem amends_continueBatch (rest : List Nat) :
    m.registry.Amends l (continueBatch m stack rest).machine.registry := by
  cases rest with
  | nil => exact .reap _
  | cons t rest =>
    unfold continueBatch
    dsimp only
    split
    · split <;> exact .refl _
    · exact .refl _

theorem amends_proceed (o : RunOptions) :
    m.registry.Amends (licence ⟨m, stack, .done⟩) (proceed o m stack).machine.registry := by
  match stack with
  | [] => exact .refl _
  | .driving _ :: _ => exact .refl _
  | .member _ :: _ => exact .refl _
  | .composite k :: _ =>
    exact m.amends_continueComposite k id (Or.inr (Nat.le_refl _)) (Or.inr (Nat.le_refl _))
      fun hrest e he => ⟨hrest, e, he, rfl⟩
  | .forked child :: _ =>
    show m.registry.Amends _ (m.afterFork child).machine.registry
    unfold Machine.afterFork
    split
    · split
      · split <;> exact .refl _
      · exact .refl _
    · exact .refl _
  | .batch rest :: _ => exact amends_continueBatch m _ rest
  | .round finished rest :: _ => exact amends_continueRound m _ finished rest
  | .loop root :: _ => exact amends_continueLoop m o root

/-- **A step keeps within its licence.** -/
theorem amends_step (w : World σ) (o : RunOptions) (c : Config σ) :
    c.machine.registry.Amends c.licence (c.step w o).machine.registry := by
  obtain ⟨m, stack, control⟩ := c
  cases control with
  | done => exact amends_proceed m stack o
  | raised e => exact amends_catchException m stack w e
  | abort f => exact amends_unwind m stack f
  | answer a => exact amends_deliver m stack w o a
  | drive t s =>
    have ht : (licence ⟨m, stack, .drive t s⟩).works t := Or.inl rfl
    have hrun : m.registry.Amends (licence ⟨m, stack, .drive t s⟩)
        (m.modify t fun task => { task with running := true }).registry :=
      .modify ht fun _ => ⟨rfl, rfl, rfl, rfl, rfl, rfl, rfl, fun _ => Or.inr (Or.inl ⟨s, rfl⟩)⟩
    exact hrun.trans (amends_withCoroutine _ stack t ht _)
  | interpret t effect inComposite =>
    exact m.amends_interpret o t trivial (Or.inr (Nat.le_refl _)) (Or.inr (Nat.le_refl _)) w effect
      inComposite
  | runTask t => exact amends_runTask m stack t (Or.inl rfl)
  | start t => exact amends_start m stack t w o (Or.inl rfl)
  | complete t v => exact m.amends_complete o t (Or.inl rfl) v
  | fail t e =>
    unfold step
    dsimp only
    split
    · rename_i m' hm
      exact m.amends_fail o t (Or.inl rfl) e rfl hm
    · exact .refl _
  | propagate t e => exact amends_propagate m stack t o e
  | bubble finished => exact amends_bubble m stack o finished

/-- **A step works on one task at most**, and takes nothing back. -/
theorem moves_step (w : World σ) (o : RunOptions) (c : Config σ) :
    c.machine.registry.Moves c.footprint (c.step w o).machine.registry :=
  (amends_step w o c).moves (fun _ hi hw => hw.resolve_right (Nat.not_le_of_lt hi))
    fun _ hi hd => hd.resolve_right (Nat.not_le_of_lt hi)

end Config

end Rehearsal
