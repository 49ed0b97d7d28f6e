import Rehearsal.Proofs.Engine.Reporting
import Rehearsal.Proofs.Engine.Sound

/-!
# Tasks that end

A computation that is over leaves its task blocked behind the children that live, or finished. Both
are ways of putting the task back, so completing and failing keep configurations sound; what becomes
of a failure is looked at next.
-/
namespace Rehearsal

variable {σ : Type}

namespace Task

def hold (live : List Nat) (held : Pending) (t : Task) : Task :=
  { t with children := live, coroutine := none }.block ⟨.children, held, live, none⟩

end Task

def Registry.live (r : Registry) (t : Task) : List Nat := t.children.filter fun c => !r.isDone c

namespace Machine

variable {m : Machine σ} {o : RunOptions} {t : Nat} {u : Task} {held : Pending}

@[simp] theorem registry_modify (m : Machine σ) (t : Nat) (f : Task → Task) :
    (m.modify t f).registry = m.registry.modify t f := rfl

@[simp] theorem registry_noteInterrupt (m : Machine σ) (o : RunOptions) (t : Task) :
    (m.noteInterrupt o t).registry = m.registry := by
  unfold noteInterrupt
  split <;> rfl

@[simp] theorem registry_suspend (o : RunOptions) (m : Machine σ) (t : Nat) (i : Interruption) :
    (m.suspend o t i).registry = m.registry.modify t (·.block i) := by
  unfold suspend
  dsimp only
  split
  · rw [registry_noteInterrupt]
    rfl
  · rfl

@[simp] theorem registry_finalize (m : Machine σ) (t : Nat) (v : Value) :
    (m.finalize t v).registry = (m.registry.modify t (·.finish v)).retire t := rfl

/-- Either a child lives, and the task is blocked behind those that do, or it has no children left.
-/
theorem holdForChildren_cases (o : RunOptions) (hu : m.registry.get? t = some u) (held : Pending) :
    (∃ m', m.holdForChildren o t held = (true, m') ∧ m.registry.live u ≠ [] ∧
      m'.registry = m.registry.modify t (Task.hold (m.registry.live u) held)) ∨
    (∃ m', m.holdForChildren o t held = (false, m') ∧ m.registry.live u = [] ∧
      m'.registry = m.registry.modify t fun u => { u with children := [] }) := by
  have hget : m.get? t = some u := hu
  unfold holdForChildren
  simp only [hget]
  by_cases hl : (m.registry.live u) = []
  · right
    refine ⟨_, if_pos (by simpa [Registry.live] using hl), hl, ?_⟩
    show m.registry.modify t _ = _
    unfold Registry.live at hl
    rw [hl]
  · left
    refine ⟨_, if_neg (by simpa [Registry.live] using hl), hl, ?_⟩
    rw [registry_suspend]
    show ((m.registry.modify t _).modify t _).modify t _ = _
    rw [Registry.modify_modify, Registry.modify_modify]
    rfl

end Machine

namespace Core

variable {begun : Nat → Prop} {r : Registry} {reaped : List Nat} {stack : List Frame} {t : Nat}
  {u : Task}

/-- Work that only lets go of children that are over. -/
theorem retied_live (hu : u.done = false) {u' : Task} (hid : u'.id = u.id)
    (hp : u'.parent = u.parent) (hdet : u'.detached = u.detached) (hd : u'.done = false)
    (hc : u'.children = r.live u) : u.Retied r u' where
  id := hid
  parent := hp
  detached := hdet
  done := hd.trans hu.symm
  ended := fun h => (Bool.false_ne_true (hu.symm.trans h)).elim
  children := hc ▸ List.filter_sublist
  dropped := by
    intro c hc' hn
    by_contra hlive
    refine hn (hc ▸ List.mem_filter.mpr ⟨hc', ?_⟩)
    simpa using hlive

/-- The subject is blocked behind its live children. -/
theorem hold (h : Core begun r reaped stack (some t)) (hu : r.get? t = some u) (hd : u.done = false)
    (hr : u.running = false) (hl : r.live u ≠ []) {held : Pending} (hh : u.Holds held) :
    Core begun (r.modify t (Task.hold (r.live u) held)) reaped stack none := by
  have hre : u.Retied r (u.hold (r.live u) held) := retied_live hd rfl rfl rfl hd rfl
  have hu' := Registry.get?_modify_of_eq_some (Task.hold (r.live u) held) hu
  have hb : (u.hold (r.live u) held).Blocked ⟨.children, held, r.live u, none⟩ :=
    ⟨rfl, rfl, rfl, hd, hr⟩
  exact (h.modify hu _ hre rfl).put hu' hr (.holding _ ⟨hb, rfl, rfl, hl, hh⟩) fun _ => hb.not_fresh

/-- The subject, which owns nothing, is over. -/
theorem finish (h : Core begun r reaped stack (some t))
    (hu : r.get? t = some u) (hd : u.done = false)
    (hr : u.running = false) (hc : u.children = []) (nested : Nested none stack) (v : Value) :
    Core begun ((r.modify t (·.finish v)).retire t) reaped stack none := by
  have hev : r.Evolves ((r.modify t (·.finish v)).retire t) (· = t) fun _ => False :=
    .finish h.forest hu hd v
  have hu' : ((r.modify t (·.finish v)).retire t).get? t = some (u.finish v) := by
    rw [Registry.get?_retire]
    exact Registry.get?_modify_of_eq_some _ hu
  have h' : Core begun ((r.modify t (·.finish v)).retire t) reaped stack (some t) :=
    h.work hu hev (h.forest.finish hu hd hc v) hu' (fun _ => id) (fun _ => False.elim)
      fun c hm => nested.composite_runner hm
  exact h'.put hu' hr (.ended rfl hr) fun _ hf => absurd hf.done nofun

end Core

namespace Machine

variable {begun : Nat → Prop} {m : Machine σ} {stack : List Frame} {t : Nat} {u : Task}

def wrapUp (m : Machine σ) (o : RunOptions) (t : Nat) (held : Pending) (v : Value) : Machine σ :=
  match m.holdForChildren o t held with
  | (true, m) => m
  | (false, m) => m.finalize t v

/-- The computation of the subject is over: either way the subject is put back, and no other task is
touched. -/
theorem core_wrapUp (o : RunOptions) (core : Core begun m.registry [] stack (some t))
    (nested : Nested none stack) (hu : m.registry.get? t = some u) (hd : u.done = false)
    (hr : u.running = false) {held : Pending} (hh : u.Holds held) (v : Value) :
    Core begun (m.wrapUp o t held v).registry [] stack none ∧
      m.registry.Evolves (m.wrapUp o t held v).registry (· = t) fun _ => False := by
  unfold wrapUp
  rcases holdForChildren_cases o hu held with ⟨m', he, hl, hm⟩ | ⟨m', he, hl, hm⟩
  · simp only [he, hm]
    exact ⟨core.hold hu hd hr hl hh, .modify hu rfl rfl rfl rfl⟩
  · simp only [he, registry_finalize, hm]
    have hre : u.Retied m.registry { u with children := [] } :=
      Core.retied_live hd rfl rfl rfl hd hl.symm
    have hu' := Registry.get?_modify_of_eq_some (fun u => { u with children := [] }) hu
    have core' := core.modify hu (fun u => { u with children := [] }) hre rfl
    have hev : m.registry.Evolves (m.registry.modify t fun u => { u with children := [] }) (· = t)
        fun _ => False := .modify hu rfl rfl rfl rfl
    exact ⟨core'.finish hu' hd hr rfl nested v, hev.trans (.finish core'.forest hu' hd v)⟩

/-- A task that returns is put back. -/
theorem core_complete (o : RunOptions) (core : Core begun m.registry [] stack (some t))
    (nested : Nested none stack) (hu : m.registry.get? t = some u) (free : u.Free)
    (hr : u.running = false) (v : Value) : Core begun (m.complete o t v).registry [] stack none :=
  (core_wrapUp o core nested hu free.done hr (Or.inl ⟨v, rfl, free.error⟩) v).1

def condemn (m : Machine σ) (t : Nat) (children : List Nat) (e : Exn) : Machine σ :=
  { m with registry :=
    (m.registry.modify t fun u => { u with error := some e }).cancelAll children }

theorem fail_eq (o : RunOptions) (hu : m.registry.get? t = some u) (he : u.error = none) (e : Exn) :
    m.fail o t e = some ((m.condemn t u.children e).wrapUp o t (.failed e) (.error e)) := by
  have hget : m.get? t = some u := hu
  unfold fail wrapUp
  simp only [hget, he, Option.isSome_none, Bool.false_eq_true, if_false]
  unfold condemn modify
  generalize holdForChildren o _ t (.failed e) = held
  obtain ⟨ok, m'⟩ := held
  cases ok <;> rfl

/-- A task that is free fails, and is put back. -/
theorem core_fail (o : RunOptions) (core : Core begun m.registry [] stack (some t))
    (nested : Nested none stack) (hu : m.registry.get? t = some u) (free : u.Free)
    (hr : u.running = false) (e : Exn) :
    ∃ m', m.fail o t e = some m' ∧ Core begun m'.registry [] stack none ∧
      m.registry.Evolves m'.registry (· = t) fun _ => False := by
  have hre : u.Retied m.registry { u with error := some e } :=
    .of_unfinished rfl rfl rfl free.done free.done rfl
  have hflag := Registry.cancelAll_flagged (m.registry.modify t fun u => { u with error := some e })
    u.children fun _ => False
  obtain ⟨c, l, hu', _⟩ := hflag.eq_some (Registry.get?_modify_of_eq_some _ hu)
  have core' : Core begun (m.condemn t u.children e).registry [] stack (some t) :=
    (core.modify hu (fun u => { u with error := some e }) hre rfl).cancelled hflag
  have hev : m.registry.Evolves (m.condemn t u.children e).registry (· = t) fun _ => False :=
    .trans (.modify (f := fun u => { u with error := some e }) hu rfl rfl rfl rfl)
      (.flagged hflag fun _ _ => False.elim)
  obtain ⟨hcore, hev'⟩ :=
    core_wrapUp o core' nested hu' free.done hr (Or.inr ⟨e, rfl, rfl⟩) (.error e)
  exact ⟨_, fail_eq o hu free.error e, hcore, hev.trans hev'⟩

end Machine

namespace Config

variable {begun : Nat → Prop} {m : Machine σ} {stack : List Frame} {t : Nat} {u : Task}

theorem sound_complete (o : RunOptions) {v : Value}
    (h : Rehearsal.Sound begun m.registry stack (.complete t v)) :
    (halt (m.complete o t v) stack).Sound begun := by
  cases h with
  | completing _ core nested hu free hr =>
    exact .resting (m.core_complete o core nested hu free hr v) nested

theorem sound_fail (o : RunOptions) {e : Exn}
    (h : Rehearsal.Sound begun m.registry stack (.fail t e)) :
    (match m.fail o t e with
      | some m => ⟨m, stack, .propagate t e⟩
      | none => halt m stack : Config σ).Sound begun := by
  cases h with
  | failing _ core nested hu free hr =>
    obtain ⟨m', he, core', hev⟩ := m.core_fail o core nested hu free hr e
    obtain ⟨u', hu', hk⟩ := hev.kept hu
    simp only [he]
    refine .propagating e core' nested hu' fun p hp => ?_
    rw [hk.parent] at hp
    obtain ⟨up, hup, hpd, hmem⟩ := core.forest.held hu free.done hp
    obtain ⟨up', hup', _⟩ := hev.kept hup
    have hpt : p ≠ t := Nat.ne_of_lt (core.forest.parent_lt hu hp)
    obtain ⟨up₀, hup₀, hst⟩ := hev.steady hpt hup'
    rw [hup, Option.some.injEq] at hup₀
    subst hup₀
    exact ⟨up', hup', hst.done.trans hpd, hst.children_ne (List.ne_nil_of_mem hmem)⟩

end Config

end Rehearsal
