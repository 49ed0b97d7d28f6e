import Rehearsal.Proofs.Engine.Ending

/-!
# Tasks that go on

What is resumed, started or answered is in the hands of the scheduler first. It goes on running
under a frame of its own, is put back blocked, or ends.
-/
namespace Rehearsal

variable {σ : Type} {begun : Nat → Prop} {m : Machine σ} {stack : List Frame} {t : Nat} {u : Task}

namespace Core

variable {r : Registry} {reaped : List Nat}

/-- A subject is blocked and put back. -/
theorem block {i : Interruption} {f : Task → Task} (h : Core begun r reaped stack (some t))
    (hu : r.get? t = some u) (hf : f u = u.block i) (hd : u.done = false) (he : u.error = none)
    (hr : u.running = false) (hi : r.Awaits t i)
    (hh : ∀ d ∈ i.dependencies, r.Hears (news r reaped stack t) d) :
    Core begun (r.modify t f) reaped stack none := by
  have hre : u.Retied r (f u) := hf ▸ .of_unfinished rfl rfl rfl hd hd rfl
  have hev : r.Evolves (r.modify t f) (· = t) fun _ => False := by
    refine .modify hu ?_ ?_ ?_ ?_ <;> rw [hf] <;> rfl
  have hu' := Registry.get?_modify_of_eq_some f hu
  rw [hf] at hu'
  have hb : (u.block i).Blocked i := ⟨rfl, hi.unanswered, rfl, hd, hr⟩
  refine (h.modify hu f hre (by rw [hf]; rfl)).put hu' hr (.waiting i ⟨hb, he, ?_, ?_⟩)
    fun _ => hb.not_fresh
  · have hid : (u.block i).id = t := h.forest.id_eq (t := u) hu
    rw [hid]
    exact hi.evolve hev id
  · exact fun d hmem => (hh d hmem).evolve hev (fun _ => id) fun _ => mem_news_of_finished

/-- The subject stops running. -/
theorem stop (h : Core begun r reaped stack (some t)) (hu : r.get? t = some u) (free : u.Free) :
    Core begun (r.modify t fun u => { u with running := false }) reaped stack (some t) :=
  h.modify hu _ (.of_unfinished rfl rfl rfl free.done free.done rfl) rfl

/-- A subject that was running is blocked behind unfinished tasks. -/
theorem suspend {m : Machine σ} (o : RunOptions) {i : Interruption}
    (h : Core begun m.registry reaped stack (some t)) (hu : m.registry.get? t = some u)
    (free : u.Free) (hi : m.registry.Awaits t i)
    (hd : ∀ d ∈ i.dependencies, m.registry.Hears [] d) :
    Core begun
      ((m.modify t fun u => { u with running := false }).suspend o t i).registry reaped stack
      none := by
  rw [Machine.registry_suspend, Machine.registry_modify]
  have hev : m.registry.Evolves (m.registry.modify t fun u => { u with running := false }) (· = t)
      fun _ => False := .modify hu rfl rfl rfl rfl
  refine (h.stop hu free).block (Registry.get?_modify_of_eq_some _ hu) rfl free.done free.error rfl
    (hi.evolve hev id) fun d hmem => ?_
  exact (hd d hmem).evolve hev (fun _ => nofun) fun _ => mem_news_of_finished

/-- The task that the top frame drives, and its coroutine. -/
theorem exists_driven (h : Core begun r reaped (.driving t :: stack) none) :
    ∃ u, r.get? t = some u ∧ u.Free ∧ u.running = true ∧ u.coroutine.isSome = true := by
  obtain ⟨u, hu, free, hr⟩ := h.exists_runner rfl
  obtain ⟨v, hv, hco⟩ := h.frames (.driving t) (List.mem_cons_self ..)
  rw [hu, Option.some.injEq] at hv
  exact ⟨u, hu, free, hr, hv ▸ hco⟩

end Core

namespace Config

/-- A task that is resumed yields an effect, or ends. -/
theorem sound_withCoroutine (core : Core begun m.registry [] stack (some t))
    (nested : Nested none stack) (hu : m.registry.get? t = some u) (free : u.Free)
    (hr : u.running = true) (hco : u.coroutine.isSome = true)
    (go : Coroutine → σ → Progress × Coroutine × σ) : (withCoroutine m stack t go).Sound begun := by
  obtain ⟨c, hc⟩ := Option.isSome_iff_exists.mp hco
  have hget : m.get? t = some u := hu
  unfold withCoroutine
  simp only [hget, Option.bind_some, hc]
  obtain ⟨progress, c', s⟩ := go c m.outer
  dsimp only
  have hu' := Registry.get?_modify_of_eq_some (fun u => { u with coroutine := some c' }) hu
  have core' : Core begun (m.registry.modify t fun u => { u with coroutine := some c' }) [] stack
      (some t) :=
    core.modify hu _ (.of_unfinished rfl rfl rfl free.done free.done rfl) rfl
  have free' : Task.Free { u with coroutine := some c' } :=
    ⟨free.done, free.interruption, free.error⟩
  have core'' := core'.stop hu' free'
  have hu'' := Registry.get?_modify_of_eq_some (fun u => { u with running := false }) hu'
  have free'' : Task.Free { u with coroutine := some c', running := false } :=
    ⟨free.done, free.interruption, free.error⟩
  cases progress with
  | suspended effect =>
    have hf : Frame.Stands (m.registry.modify t fun u => { u with coroutine := some c' })
        (.driving t) := ⟨_, hu', rfl⟩
    exact .interpreting effect false (core'.push hu' rfl hf free' hr) (.driving t nested)
  | finished v => exact .completing v core'' nested hu'' free'' rfl
  | raised e =>
    unfold afterProgress
    dsimp only
    split
    · exact .failing e core'' nested hu'' free'' rfl
    · exact .aborted _ core'.forest

theorem sound_drive (w : World σ) {s : Signal}
    (h : Rehearsal.Sound begun m.registry stack (.drive t s)) :
    (drive w m stack t s).Sound begun := by
  cases h with
  | @driving _ u _ _ core nested hu poised =>
    have hre : u.Retied m.registry { u with running := true } :=
      .of_unfinished rfl rfl rfl poised.done poised.done rfl
    exact sound_withCoroutine (m := m.modify t fun u => { u with running := true })
      (core.modify hu _ hre rfl) nested (Registry.get?_modify_of_eq_some _ hu)
      ⟨poised.done, poised.interruption, poised.error⟩ rfl poised.coroutine _

theorem sound_deliver (w : World σ) (o : RunOptions) {a : Answer}
    (h : Rehearsal.Sound begun m.registry stack (.answer a)) :
    (deliver w o m a stack).Sound begun := by
  cases h with
  | @answered t stack a core nested stands =>
    cases nested with
    | driving _ nested =>
      obtain ⟨u, hu, free, hr, hco⟩ := core.exists_driven
      have core' := core.lift rfl
      cases a with
      | advance v => exact sound_withCoroutine core' nested hu free hr hco _
      | enter g => exact sound_withCoroutine core' nested hu free hr hco _
      | block i => exact .resting (core'.suspend o hu free stands.1 stands.2) nested
    | member _ _ nested =>
      obtain ⟨u, hu, free, hr⟩ := core.exists_runner rfl
      have core' := core.lift rfl
      have hu' := Registry.get?_modify_of_eq_some (fun u => { u with running := false }) hu
      have core'' := core'.stop hu free
      have free' : Task.Free { u with running := false } :=
        ⟨free.done, free.interruption, free.error⟩
      cases a with
      | advance v => exact .completing v core'' nested hu' free' rfl
      | enter g =>
        have hu'' := Registry.get?_modify_of_eq_some
          (fun u => { u with coroutine := some (.ofGenerator g) }) hu'
        refine .driving (core''.modify hu' _ ?_ rfl) nested hu'' ⟨?_, rfl, fun _ => nofun⟩
        · exact .of_unfinished rfl rfl rfl free.done free.done rfl
        · exact ⟨free.done, free.interruption, free.error⟩
      | block i => exact .resting (core'.suspend o hu free stands.1 stands.2) nested

theorem sound_catchException (w : World σ) {e : Exn}
    (h : Rehearsal.Sound begun m.registry stack (.raised e)) :
    (catchException w m e stack).Sound begun := by
  cases h with
  | @raised t _ _ core nested =>
    cases nested with
    | driving _ nested =>
      obtain ⟨u, hu, free, hr, hco⟩ := core.exists_driven
      exact sound_withCoroutine (core.lift rfl) nested hu free hr hco _
    | member _ _ nested =>
      obtain ⟨u, hu, free, hr⟩ := core.exists_runner rfl
      exact .failing e ((core.lift rfl).stop hu free) nested
        (Registry.get?_modify_of_eq_some _ hu) ⟨free.done, free.interruption, free.error⟩ rfl

/-- Nothing but a flag changes while a run is given up. -/
theorem sound_unwind {f : Failure} (h : Rehearsal.Sound begun m.registry stack (.abort f)) :
    (unwind m f stack).Sound begun := by
  cases h with
  | aborted _ forest =>
    match stack with
    | [] => exact .aborted f forest
    | .driving t :: _ =>
      refine .aborted f ?_
      show Registry.Forest (m.registry.modify t fun u => { u with running := false })
      cases hu : m.registry.get? t with
      | none => rwa [Registry.modify_of_eq_none hu]
      | some u =>
        refine forest.modify hu ⟨rfl, rfl, rfl, rfl, fun hd => (forest.ended hu hd).2, ?_, ?_⟩
        · exact List.Sublist.refl _
        · exact fun _ hm hn => (hn hm).elim
    | .member _ :: _ | .composite _ :: _ | .forked _ :: _ | .batch _ :: _ | .round .. :: _
    | .loop _ :: _ => exact .aborted f forest

end Config

end Rehearsal
