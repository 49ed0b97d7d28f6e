import Rehearsal.Proofs.Task.Slots
import Rehearsal.Proofs.Engine.Starting

/-!
# Interpreting effects

An effect is interpreted for a task that runs. It makes tasks below that task or below the one that
answers for it, raises flags, and ends in an answer, an exception or a start; what it blocks the
task with is unfinished.
-/
namespace Rehearsal

variable {σ : Type} {begun : Nat → Prop} {m : Machine σ} {stack : List Frame} {t : Nat}

namespace Core

variable {r : Registry} {reaped : List Nat}

/-- A task is made and taken. Its parent is at work or suspended in its code. -/
theorem create (h : Core begun r reaped stack none) (name : String) (wait : Wait)
    (parent : Option Nat) (detached : Bool) (entry : Option Entry)
    (hp : ∀ p, parent = some p → ∃ u, r.get? p = some u ∧ u.done = false ∧
      (u.running = true ∨ u.coroutine.isSome = true))
    (hn : parent = none → detached = true) :
    Core begun (r.create name wait parent detached none entry).1 reaped stack (some r.size) := by
  have hlt : ∀ p, parent = some p → p < r.size := by
    intro p hpp
    obtain ⟨u, hu, _⟩ := hp p hpp
    exact Registry.get?_eq_some_lt hu
  have hev : r.Evolves (r.create name wait parent detached none entry).1 (· = r.size)
      fun _ => False := by
    refine .create h.forest fun p hpp => ?_
    obtain ⟨u, hu, _, hr⟩ := hp p hpp
    exact ⟨u, hu, hr⟩
  refine h.evolve (hev.mono (fun i hi => congrArg some hi.symm) fun _ => id) ?_ nofun ?_
    (fun _ => False.elim) (fun _ _ => id) ?_
  · refine h.forest.create (fun p hpp => ?_) fun hpn => Or.inr (hn hpn)
    obtain ⟨u, hu, hd, _⟩ := hp p hpp
    exact ⟨u, hu, hd⟩
  · rintro i ⟨⟩ hi
    obtain ⟨u, hu⟩ := h.exists_of_mem_runners hi
    exact Nat.lt_irrefl _ (Registry.get?_eq_some_lt hu)
  · rintro i u ⟨⟩ hu c hc
    rw [Registry.Forest.get?_create_new _ _ _ _ _ _ hlt, Option.some.injEq] at hu
    rw [← hu] at hc
    cases hc

/-- What has not been made has not begun. -/
theorem not_begun_size (h : Core begun r reaped stack none) : ¬ begun r.size := by
  intro hb
  obtain ⟨u, hu, _⟩ := h.once hb
  exact Nat.lt_irrefl _ (Registry.get?_eq_some_lt hu)

end Core

/-- A task that was just made has not been started. -/
theorem Task.fresh_fresh (id : Nat) (name : String) (wait : Wait) (parent : Option Nat)
    (detached : Bool) (entry : Option Entry) :
    (Task.fresh id name wait parent detached none entry).Fresh :=
  ⟨rfl, rfl, rfl, rfl, rfl, rfl⟩

/-- A task that was just made under `t` belongs to it and is unfinished. -/
theorem Registry.awaits_child {r : Registry} {d : Nat} {u : Task} (hu : r.get? d = some u)
    (hp : u.parent = some t) (ha : u.abandoned = false) : r.Awaits t (.onChild d) where
  nonempty := List.cons_ne_nil _ _
  unanswered := rfl
  shape := ⟨d, rfl, rfl⟩
  owned := by
    intro _ d' hd'
    rw [List.mem_singleton.mp hd']
    exact ⟨u, hu, hp, ha⟩

theorem Machine.create_eq (m : Machine σ) (name : String) (wait : Wait) (parent : Option Nat)
    (detached : Bool) (entry : Option Entry) :
    m.create name wait parent detached entry =
      ({ m with registry := (m.registry.create name wait parent detached none entry).1 },
        m.registry.size) := by
  have hid := Registry.create_snd m.registry name wait parent detached none entry
  unfold Machine.create
  generalize m.registry.create name wait parent detached none entry = made at hid ⊢
  exact Prod.ext rfl hid

namespace Config

abbrev SoundOutcome (begun : Nat → Prop) (stack : List Frame) (r : Outcome σ) : Prop :=
  (ofOutcome stack r).Sound begun

theorem sound_failure (core : Core begun m.registry [] stack none) (nested : Nested (some t) stack)
    (f : Failure) : SoundOutcome begun stack (.failure m f) := Sound.failure core nested f

theorem sound_advance (core : Core begun m.registry [] stack none) (nested : Nested (some t) stack)
    (v : Value) : SoundOutcome begun stack (.advance m v) := .answered core nested trivial

theorem sound_enter (core : Core begun m.registry [] stack none) (nested : Nested (some t) stack)
    (g : Nat) : SoundOutcome begun stack (.answer m (.enter g)) := .answered core nested trivial

/-- The task waits for a task made for it. -/
theorem sound_onChild (core : Core begun m.registry [] stack none) (nested : Nested (some t) stack)
    (name : String) (wait : Wait) (entry : Option Entry) :
    SoundOutcome begun stack (.answer (m.create name wait (some t) false entry).1
      (.block (.onChild (m.create name wait (some t) false entry).2))) := by
  obtain ⟨u, hu⟩ := core.exists_of_mem_runners nested.runner_mem
  have hr := (core.running_iff hu).mpr nested.runner_mem
  have free := (core.stands hu).free hr
  have hnew := Registry.Forest.get?_create_new (r := m.registry) name wait (some t) false none
    entry (by
      rintro p ⟨⟩
      exact Registry.get?_eq_some_lt hu)
  have core' := core.create name wait (some t) false entry (by
    rintro p ⟨⟩
    exact ⟨u, hu, free.done, Or.inl hr⟩) nofun
  rw [Machine.create_eq]
  refine .answered (core'.put hnew rfl (.fresh (Task.fresh_fresh ..)) fun hb => ?_) nested ⟨?_, ?_⟩
  · exact (core.not_begun_size hb).elim
  · exact Registry.awaits_child hnew rfl rfl
  · intro d hd
    rw [List.mem_singleton.mp hd]
    exact ⟨_, hnew, nofun⟩

theorem sound_interpretCall (w : World σ) (call : Call) (core : Core begun m.registry [] stack none)
    (nested : Nested (some t) stack) : SoundOutcome begun stack (m.interpretCall w t call) := by
  unfold Machine.interpretCall
  obtain ⟨answer, s⟩ := w.plan m.view call false m.outer
  cases answer with
  | error f => exact sound_failure (m := { m with outer := s }) core nested f
  | ok plan =>
    dsimp only
    split
    · have hreg := Machine.registry_produce w { m with outer := s } plan call
      generalize Machine.produce w { m with outer := s } plan call = made at hreg ⊢
      obtain ⟨produced, m'⟩ := made
      have core' : Core begun m'.registry [] stack none := (hreg : m'.registry = m.registry) ▸ core
      cases produced with
      | error e => exact sound_failure core' nested (.exn e)
      | ok v =>
        dsimp only
        unfold Machine.produced
        split
        · exact sound_enter core' nested _
        · exact sound_advance core' nested v
    · exact sound_onChild (m := { m with outer := s }) core nested call.name plan.wait _

theorem sound_interpretFork (w : World σ) (call : Call) (detached : Bool)
    (core : Core begun m.registry [] stack none) (nested : Nested (some t) stack) :
    SoundOutcome begun stack (m.interpretFork w t call detached) := by
  obtain ⟨u, hu⟩ := core.exists_of_mem_runners nested.runner_mem
  have hr := (core.running_iff hu).mpr nested.runner_mem
  have free := (core.stands hu).free hr
  obtain ⟨v, hv, hvd, howner⟩ := core.forest.coroutineOwner_spec hu free.done
  unfold Machine.interpretFork
  obtain ⟨answer, s⟩ := w.plan m.view call true m.outer
  cases answer with
  | error f => exact sound_failure (m := { m with outer := s }) core nested f
  | ok plan =>
    dsimp only
    have hpar : ∀ p, (if detached then none else some (m.registry.coroutineOwner t)) = some p →
        p = m.registry.coroutineOwner t := by
      intro p hp
      cases detached with
      | true => cases hp
      | false => exact (Option.some.inj hp).symm
    have hdet : (if detached then none else some (m.registry.coroutineOwner t)) = none →
        detached = true := by
      intro hp
      cases detached with
      | true => rfl
      | false => cases hp
    generalize (if detached then none else some (m.registry.coroutineOwner t)) =
      parent at hpar hdet ⊢
    have hnew := Registry.Forest.get?_create_new (r := m.registry) call.name plan.wait parent
      detached none (some (.planned plan call)) (by
        intro p hp
        rw [hpar p hp]
        exact Registry.get?_eq_some_lt hv)
    have core' := core.create call.name plan.wait parent detached
      (some (.planned plan call)) (by
        intro p hp
        rw [hpar p hp]
        refine ⟨v, hv, hvd, howner.elim Or.inr fun he => Or.inl ?_⟩
        rw [he, hu, Option.some.injEq] at hv
        exact hv ▸ hr) hdet
    rw [Machine.create_eq]
    split
    · refine .starting (core'.cons rfl (fun _ => rfl) ⟨_, hnew⟩) (.forked _ nested) hnew
        (Task.fresh_fresh ..) core.not_begun_size
    · refine sound_advance (core'.put hnew rfl (.fresh (Task.fresh_fresh ..)) fun hb => ?_) nested _
      exact (core.not_begun_size hb).elim

theorem sound_afterFork {child : Nat}
    (core : Core begun m.registry [] (.forked child :: stack) none)
    (nested : Nested (some t) stack) : SoundOutcome begun stack (m.afterFork child) := by
  have core' := core.tail rfl fun _ => rfl
  unfold Machine.afterFork
  split
  · split
    · split
      · exact sound_advance core' nested _
      · exact sound_failure core' nested _
    · exact sound_advance core' nested _
  · exact sound_failure core' nested _

theorem sound_interpretJoin (targets : Targets) (core : Core begun m.registry [] stack none)
    (nested : Nested (some t) stack) : SoundOutcome begun stack (m.interpretJoin targets) := by
  unfold Machine.interpretJoin
  cases hk : m.unknownTarget? targets with
  | some id => exact sound_failure core nested _
  | none =>
    dsimp only
    split
    · exact sound_advance core nested _
    · rename_i hne
      refine .answered core nested ⟨⟨?_, rfl, rfl, fun h => (h rfl).elim⟩, fun d hd => ?_⟩
      · simpa using hne
      · obtain ⟨hmem, hdone⟩ := Pending.mem_waitingOn_settleFinished.mp hd
        rw [Pending.waitingOn_ofTargets, List.mem_map] at hmem
        obtain ⟨k, hk', rfl⟩ := hmem
        simp only [Machine.unknownTarget?, Option.map_eq_none_iff, List.find?_eq_none,
          Option.isNone_iff_eq_none] at hk
        exact Registry.hears_of_unfinished (Option.ne_none_iff_exists'.mp (hk k hk')) hdone

theorem sound_interpretCancel (targets : Targets) (core : Core begun m.registry [] stack none)
    (nested : Nested (some t) stack) : SoundOutcome begun stack (m.interpretCancel targets) := by
  unfold Machine.interpretCancel
  split
  · exact sound_failure core nested _
  · exact sound_advance (core.cancelled (Registry.cancelAll_flagged _ _ _)) nested _

theorem sound_interpretExternal (w : World σ) (e : Effect) (inComposite : Bool)
    (core : Core begun m.registry [] stack none) (nested : Nested (some t) stack) :
    SoundOutcome begun stack (m.interpretExternal w t e inComposite) := by
  unfold Machine.interpretExternal
  split
  · exact .aborted _ core.forest
  · rename_i handler _
    dsimp only
    obtain ⟨reaction, s⟩ := handler m.view ⟨⟨t, m.nameOf t, true⟩, inComposite, m.steps⟩ m.outer
    have core' : Core begun ({ m with outer := s } : Machine σ).registry [] stack none := core
    cases reaction with
    | error f => exact sound_failure core' nested f
    | ok reaction =>
      cases reaction with
      | advance v => exact sound_advance core' nested v
      | defer v wait name => exact sound_onChild core' nested (Machine.deferredName name) wait _
      | invalid v => exact sound_failure core' nested _

end Config

end Rehearsal
