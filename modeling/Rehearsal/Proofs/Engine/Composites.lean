import Rehearsal.Proofs.Engine.Interpreting

/-!
# Races and gathers

The placeholders of a composite belong to the task that yielded it. One after the other they run,
and when all have been looked at the task goes on, fails, or is blocked behind those that are
unfinished. The members that a decided race leaves behind are let go.
-/
namespace Rehearsal

variable {σ : Type} {begun : Nat → Prop} {m : Machine σ} {stack : List Frame}

def Composite.shape (c : Composite) : Pending :=
  if c.keyed then .keyed false (c.made.map fun e => (e.1, .task e.2))
  else .list ((c.made.map (·.2)).map .task)

namespace Composite

theorem slots_shape (c : Composite) : c.shape.slots = (c.made.map (·.2)).map .task := by
  unfold shape
  split
  · simp only [Pending.slots, List.map_map]
    rfl
  · rfl

theorem waitingOn_shape (c : Composite) : c.shape.waitingOn = c.made.map (·.2) :=
  Pending.waitingOn_of_slots_eq c.slots_shape

end Composite

/-- How a composite ends, with its structure by name. -/
theorem Machine.concludeComposite_eq (m : Machine σ) (c : Composite) :
    m.concludeComposite c = match m.firstError? (c.made.map (·.2)) with
      | some e => .raise m e
      | none =>
        let pending := m.registry.settleFinished c.shape
        if c.isRace && pending.waitingOn.length < (c.made.map (·.2)).length then
          .advance { m with registry := pending.waitingOn.foldl Registry.letGo m.registry }
            pending.unwrap
        else if pending.waitingOn.isEmpty then .advance m pending.unwrap
        else .answer m
            (.block ⟨if c.isRace then .race else .all, pending, pending.waitingOn, none⟩) :=
  rfl

namespace Config

/-- The placeholder of the next member runs on top of the composite. -/
theorem sound_nextMember (c : Composite) (key member : Value) (rest : List (Value × Value))
    (name : String) (wait : Wait) (core : Core begun m.registry [] stack none)
    (nested : Nested (some c.task) stack)
    (made : ∀ e ∈ c.made, m.registry.Owned c.task e.2) :
    SoundOutcome begun stack
      ⟨(m.create name wait (some c.task) false none).1.modify m.registry.size
          fun task => { task with running := true },
        [.member m.registry.size,
          .composite { c with made := c.made ++ [(key, m.registry.size)], rest }],
        .interpret m.registry.size member true⟩ := by
  obtain ⟨u, hu⟩ := core.exists_of_mem_runners nested.runner_mem
  have hr := (core.running_iff hu).mpr nested.runner_mem
  have free := (core.stands hu).free hr
  have hlt : ∀ p, some c.task = some p → p < m.registry.size := by
    rintro p ⟨⟩
    exact Registry.get?_eq_some_lt hu
  have hpar : ∀ p, some c.task = some p → ∃ u, m.registry.get? p = some u ∧ u.done = false ∧
      (u.running = true ∨ u.coroutine.isSome = true) := by
    rintro p ⟨⟩
    exact ⟨u, hu, free.done, Or.inl hr⟩
  have hnew := Registry.Forest.get?_create_new (r := m.registry) name wait (some c.task)
    false none none hlt
  have core' := core.create name wait (some c.task) false none hpar nofun
  rw [Machine.create_eq]
  have hev : m.registry.Evolves (m.registry.create name wait (some c.task) false none none).1
      (· = m.registry.size) fun _ => False := by
    refine .create core.forest fun p hp => ?_
    obtain ⟨v, hv, _, hrun⟩ := hpar p hp
    exact ⟨v, hv, hrun⟩
  have hev' : (m.registry.create name wait (some c.task) false none none).1.Evolves
      ((m.registry.create name wait (some c.task) false none none).1.modify m.registry.size
        fun task => { task with running := true }) (· = m.registry.size) fun _ => False :=
    .modify hnew rfl rfl rfl rfl
  have hnew' := Registry.get?_modify_of_eq_some (fun task => { task with running := true }) hnew
  have core'' := core'.modify hnew (fun task => { task with running := true })
    (.of_unfinished rfl rfl rfl rfl rfl rfl) rfl
  have hframe : (Frame.composite { c with made := c.made ++ [(key, m.registry.size)], rest }).Stands
      ((m.registry.create name wait (some c.task) false none none).1.modify m.registry.size
        fun task => { task with running := true }) := by
    intro e he
    rcases List.mem_append.mp he with he | he
    · exact ((made e he).evolve hev id).evolve hev' id
    · rw [List.mem_singleton.mp he]
      exact ⟨_, hnew', rfl, rfl⟩
  refine .interpreting member true ((core''.cons rfl (fun _ => rfl) hframe).push hnew' rfl
    ⟨_, hnew'⟩ ⟨rfl, rfl, rfl⟩ rfl) (.member _ ⟨key, ?_⟩ (.composite _ nested))
  exact List.mem_append_right _ (List.mem_singleton.mpr rfl)

/-- Once all members have been looked at, the task goes on, fails, or is blocked. -/
theorem sound_concludeComposite (c : Composite) (core : Core begun m.registry [] stack none)
    (nested : Nested (some c.task) stack) (made : ∀ e ∈ c.made, m.registry.Owned c.task e.2) :
    SoundOutcome begun stack (m.concludeComposite c) := by
  have hremaining : ∀ d ∈ (m.registry.settleFinished c.shape).waitingOn,
      m.registry.Owned c.task d ∧ m.registry.isDone d = false := by
    intro d hd
    obtain ⟨hmem, hdone⟩ := Pending.mem_waitingOn_settleFinished.mp hd
    rw [c.waitingOn_shape, List.mem_map] at hmem
    obtain ⟨e, he, rfl⟩ := hmem
    exact ⟨made e he, hdone⟩
  rw [Machine.concludeComposite_eq]
  split
  · exact sound_failure core nested _
  · dsimp only
    by_cases hdecided : (c.isRace && decide ((m.registry.settleFinished c.shape).waitingOn.length <
        (c.made.map (·.2)).length)) = true
    · rw [if_pos hdecided]
      refine sound_advance (core.flagged (· = c.task) (Registry.letGoAll_flagged _ _)
        ?_ ?_ ?_) nested _
      · intro d t hd ht
        obtain ⟨⟨u, hu, hp, _⟩, _⟩ := hremaining d hd
        rw [ht, Option.some.injEq] at hu
        exact ⟨c.task, hu ▸ hp, rfl⟩
      · rintro i rfl
        exact Or.inr nested.runner_mem
      · exact fun c' hc' => nested.composite_ne core.alone hc'
    rw [if_neg hdecided]
    by_cases hnone : (m.registry.settleFinished c.shape).waitingOn.isEmpty = true
    · rw [if_pos hnone]
      exact sound_advance core nested _
    rw [if_neg hnone]
    refine .answered core nested ⟨⟨?_, rfl, ?_, fun _ d hd => (hremaining d hd).1⟩, ?_⟩
    · simpa using hnone
    · cases hrace : c.isRace with
      | false => rfl
      | true =>
        refine Pending.slots_eq_of_length_le ?_
        rw [Registry.slots_settleFinished, List.length_map, c.slots_shape, List.length_map]
        simpa [hrace] using hdecided
    · intro d hd
      obtain ⟨⟨u, hu, _⟩, hdone⟩ := hremaining d hd
      exact Registry.hears_of_unfinished ⟨u, hu⟩ hdone

theorem sound_continueComposite (c : Composite) (core : Core begun m.registry [] stack none)
    (nested : Nested (some c.task) stack) (made : ∀ e ∈ c.made, m.registry.Owned c.task e.2) :
    SoundOutcome begun stack (m.continueComposite c) := by
  unfold Machine.continueComposite
  split
  · exact sound_concludeComposite c core nested made
  · rename_i key member rest _
    dsimp only
    have h := sound_nextMember c key member rest ((if c.isRace then "race" else "all") ++ "[" ++
      key.plain ++ "]") (.tier (if c.isRace then .race else .all)) core nested made
    rw [Machine.create_eq] at h ⊢
    exact h

theorem sound_interpretEffect (w : World σ) {t : Nat} (e : Effect) (inComposite : Bool)
    (core : Core begun m.registry [] stack none) (nested : Nested (some t) stack) :
    SoundOutcome begun stack (m.interpretEffect w t e inComposite) := by
  unfold Machine.interpretEffect
  split
  · exact sound_interpretCall w _ core nested
  · exact sound_interpretFork w _ _ core nested
  · exact sound_interpretJoin _ core nested
  · exact sound_continueComposite _ core nested nofun
  · exact sound_continueComposite _ core nested nofun
  · exact sound_interpretCancel _ core nested
  · exact sound_advance (core.cancelled (Registry.cancelTree_flagged _ _ _)) nested _
  · unfold Machine.interpretCancelled
    split
    · exact sound_advance core nested _
    · exact sound_advance core nested _
  · exact sound_onChild core nested _ _ _
  · exact sound_interpretExternal w _ _ core nested

/-- Every interpretation counts as a step; then the effect is interpreted. -/
theorem sound_interpret (w : World σ) (o : RunOptions) {t : Nat} {effect : Value}
    {inComposite : Bool}
    (h : Rehearsal.Sound begun m.registry stack (.interpret t effect inComposite)) :
    (ofOutcome stack (m.interpret w o t effect inComposite)).Sound begun := by
  cases h with
  | interpreting _ _ core nested =>
    have core' : Core begun m.counted.registry [] stack none := core
    rcases m.interpret_cases w o t effect inComposite with ⟨f, heq⟩ | ⟨g, _, heq⟩ | ⟨e, _, heq⟩
    · rw [heq]
      exact sound_failure core' nested f
    · rw [heq]
      exact sound_enter core' nested g
    · rw [heq]
      exact sound_interpretEffect w e inComposite core' nested

end Config

end Rehearsal
