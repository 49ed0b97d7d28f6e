import Rehearsal.Proofs.Task.Forest

/-!
# How tasks stand

Between two doings of the scheduler a task is over, has not been started, runs, or is blocked.
`Standing` says what its record looks like in each case; what a blocked task waits for is
unfinished, or its end is still among the `news` that the task will hear. `Evolves` describes
registries that change around a task, and `Standing.evolve` that the task then stands as before.
-/
namespace Rehearsal

namespace Registry

def Hears (r : Registry) (news : List Nat) (d : Nat) : Prop :=
  ∃ td, r.get? d = some td ∧ (td.done = true → d ∈ news)

def Owned (r : Registry) (t d : Nat) : Prop :=
  ∃ td, r.get? d = some td ∧ td.parent = some t ∧ td.abandoned = false

/-- What the interruption `i` makes task `t` wait for, children apart: a child, the targets of a
join, or the members of a race or gather. -/
structure Awaits (r : Registry) (t : Nat) (i : Interruption) : Prop where
  nonempty : i.dependencies ≠ []
  unanswered : i.answer = none
  shape : match i.kind with
    | .generator => ∃ d, i.pending = .task d ∧ i.dependencies = [d]
    | .join | .all => i.dependencies = i.pending.waitingOn
    | .race => i.pending.slots = i.dependencies.map .task
    | .children => False
  owned : i.kind ≠ .join → ∀ d ∈ i.dependencies, r.Owned t d

end Registry

namespace Task

/-- Made and not yet started. -/
structure Fresh (t : Task) : Prop where
  done : t.done = false
  running : t.running = false
  interruption : t.interruption = none
  error : t.error = none
  children : t.children = []
  coroutine : t.coroutine = none

/-- Neither over nor failed nor blocked. -/
structure Free (t : Task) : Prop where
  done : t.done = false
  interruption : t.interruption = none
  error : t.error = none

/-- Blocked by the interruption `i`, which has no answer yet. -/
structure Blocked (t : Task) (i : Interruption) : Prop where
  interruption : t.interruption = some i
  unanswered : i.answer = none
  tier : t.wait = .tier i.kind.tier
  done : t.done = false
  running : t.running = false

theorem Blocked.not_fresh {t : Task} {i : Interruption} (h : t.Blocked i) : ¬ t.Fresh := by
  intro hf
  have hn := hf.interruption
  rw [h.interruption] at hn
  cases hn

/-- Blocked behind other tasks, of whose ends it will hear. -/
structure Waiting (r : Registry) (news : List Nat) (t : Task) (i : Interruption) : Prop
    extends Blocked t i where
  error : t.error = none
  awaits : r.Awaits t.id i
  hears : ∀ d ∈ i.dependencies, r.Hears news d

def Holds (t : Task) (held : Pending) : Prop :=
  (∃ v, held = .returned v ∧ t.error = none) ∨ ∃ e, held = .failed e ∧ t.error = some e

/-- Through with its own work and blocked behind its children. -/
structure Holding (t : Task) (i : Interruption) : Prop extends Blocked t i where
  kind : i.kind = .children
  coroutine : t.coroutine = none
  children : t.children ≠ []
  holds : t.Holds i.pending

/-- How a task stands that nothing is being done about. -/
inductive Standing (r : Registry) (news : List Nat) (t : Task) : Prop
  | ended (done : t.done = true) (running : t.running = false)
  | fresh (h : t.Fresh)
  | active (free : t.Free) (running : t.running = true)
  | waiting (i : Interruption) (h : t.Waiting r news i)
  | holding (i : Interruption) (h : t.Holding i)

/-- `t'` is `t` but for flags and children: the end of no new child is lost, and only a task whose
code runs or is suspended takes on its first. -/
structure Steady (r' : Registry) (t t' : Task) : Prop where
  id : t'.id = t.id
  wait : t'.wait = t.wait
  coroutine : t'.coroutine = t.coroutine
  interruption : t'.interruption = t.interruption
  error : t'.error = t.error
  running : t'.running = t.running
  done : t'.done = t.done
  added : ∀ c ∈ t'.children, c ∈ t.children ∨ r'.Hears r'.finished c
  children_ne : t.children ≠ [] → t'.children ≠ []
  children_eq : t.children = [] → t'.children = [] ∨ t.running = true ∨ t.coroutine.isSome = true

theorem Steady.fresh {r' : Registry} {t t' : Task} (h : t.Steady r' t') (hf : t'.Fresh) :
    t.Fresh where
  done := h.done ▸ hf.done
  running := h.running ▸ hf.running
  interruption := h.interruption ▸ hf.interruption
  error := h.error ▸ hf.error
  children := by
    by_contra hne
    exact h.children_ne hne hf.children
  coroutine := h.coroutine ▸ hf.coroutine

structure Kept (finished : List Nat) (cut : Nat → Prop) (i : Nat) (t t' : Task) : Prop where
  id : t'.id = t.id
  parent : t'.parent = t.parent
  done : t.done = true → t'.done = true
  ended : t'.done = true → t.done = true ∨ i ∈ finished
  abandoned : t.abandoned = true → t'.abandoned = true
  leaves : t'.abandoned = true → t.abandoned = true ∨ ∃ p, t.parent = some p ∧ cut p

namespace Kept

variable {finished finished' : List Nat} {cut : Nat → Prop} {i : Nat} {t t' t'' : Task}

theorem of_eq (hid : t'.id = t.id) (hp : t'.parent = t.parent) (hd : t'.done = t.done)
    (ha : t'.abandoned = t.abandoned) : t.Kept finished cut i t' :=
  ⟨hid, hp, fun h => hd.trans h, fun h => Or.inl (hd ▸ h), fun h => ha.trans h,
    fun h => Or.inl (ha ▸ h)⟩

theorem trans (h : t.Kept finished cut i t') (h' : t'.Kept finished' cut i t'')
    (hf : i ∈ finished → i ∈ finished') : t.Kept finished' cut i t'' where
  id := h'.id.trans h.id
  parent := h'.parent.trans h.parent
  done := fun hd => h'.done (h.done hd)
  ended := by
    intro hd
    rcases h'.ended hd with hd | hi
    · rcases h.ended hd with hd | hi
      · exact Or.inl hd
      · exact Or.inr (hf hi)
    · exact Or.inr hi
  abandoned := fun ha => h'.abandoned (h.abandoned ha)
  leaves := by
    intro ha
    rcases h'.leaves ha with ha | ⟨p, hp, hc⟩
    · exact h.leaves ha
    · exact Or.inr ⟨p, h.parent ▸ hp, hc⟩

end Kept

end Task

/-- The registry moves from `r` to `r'` while the tasks in `touched` are worked on. Tasks that
finish go to the buffer, and only children of tasks in `cut` are let go. -/
structure Registry.Evolves (r r' : Registry) (touched cut : Nat → Prop) : Prop where
  kept : ∀ {i t}, r.get? i = some t → ∃ t', r'.get? i = some t' ∧ t.Kept r'.finished cut i t'
  steady : ∀ {i t'}, ¬ touched i → r'.get? i = some t' →
    ∃ t, r.get? i = some t ∧ t.Steady r' t'
  finished : ∀ {i}, i ∈ r.finished → i ∈ r'.finished

namespace Registry

variable {r r' r'' : Registry} {touched cut : Nat → Prop}

theorem Hears.evolve {news news' : List Nat} {d : Nat} (h : r.Hears news d)
    (hev : r.Evolves r' touched cut) (hn : ∀ x ∈ news, x ∈ news')
    (hf : ∀ x ∈ r'.finished, x ∈ news') : r'.Hears news' d := by
  obtain ⟨td, htd, hd⟩ := h
  obtain ⟨td', htd', hk⟩ := hev.kept htd
  refine ⟨td', htd', fun hd' => ?_⟩
  rcases hk.ended hd' with hdone | hfin
  · exact hn d (hd hdone)
  · exact hf d hfin

theorem Hears.congr {news news' : List Nat} {d : Nat} (h : r.Hears news d)
    (hget : ∀ i, r'.get? i = r.get? i) (hn : d ∈ news → d ∈ news') : r'.Hears news' d := by
  obtain ⟨td, htd, hd⟩ := h
  exact ⟨td, (hget d).trans htd, fun hdone => hn (hd hdone)⟩

theorem Hears.mono {news news' : List Nat} {d : Nat} (h : r.Hears news d)
    (hn : ∀ x ∈ news, x ∈ news') : r.Hears news' d := h.congr (fun _ => rfl) (hn d)

theorem hears_of_unfinished {news : List Nat} {d : Nat} (h : ∃ td, r.get? d = some td)
    (hd : r.isDone d = false) : r.Hears news d := by
  obtain ⟨td, htd⟩ := h
  refine ⟨td, htd, fun hdone => ?_⟩
  rw [isDone_of_eq_some htd, hdone] at hd
  cases hd

theorem Owned.evolve {t d : Nat} (h : r.Owned t d) (hev : r.Evolves r' touched cut)
    (hc : ¬ cut t) : r'.Owned t d := by
  obtain ⟨td, htd, hp, ha⟩ := h
  obtain ⟨td', htd', hk⟩ := hev.kept htd
  refine ⟨td', htd', hk.parent.trans hp, ?_⟩
  cases ha' : td'.abandoned with
  | false => rfl
  | true =>
    rcases hk.leaves ha' with ha' | ⟨p, hp', hcut⟩
    · rw [ha] at ha'
      cases ha'
    · rw [hp, Option.some.injEq] at hp'
      exact (hc (hp' ▸ hcut)).elim

theorem Owned.congr {t d : Nat} (h : r.Owned t d) (hget : ∀ i, r'.get? i = r.get? i) :
    r'.Owned t d := by
  obtain ⟨td, htd, h⟩ := h
  exact ⟨td, (hget d).trans htd, h⟩

theorem Awaits.kind_ne_children {t : Nat} {i : Interruption} (h : r.Awaits t i) :
    i.kind ≠ .children := by
  intro hk
  have hs := h.shape
  rw [hk] at hs
  exact hs

theorem Awaits.congr {t : Nat} {i : Interruption} (h : r.Awaits t i)
    (hget : ∀ i, r'.get? i = r.get? i) : r'.Awaits t i :=
  ⟨h.nonempty, h.unanswered, h.shape, fun hk d hd => (h.owned hk d hd).congr hget⟩

theorem Awaits.evolve {t : Nat} {i : Interruption} (h : r.Awaits t i)
    (hev : r.Evolves r' touched cut) (hc : ¬ cut t) : r'.Awaits t i :=
  ⟨h.nonempty, h.unanswered, h.shape, fun hk d hd => (h.owned hk d hd).evolve hev hc⟩

namespace Evolves

protected theorem trans (h : r.Evolves r' touched cut) (h' : r'.Evolves r'' touched cut) :
    r.Evolves r'' touched cut where
  kept := by
    intro i t ht
    obtain ⟨t', ht', hk⟩ := h.kept ht
    obtain ⟨t'', ht'', hk'⟩ := h'.kept ht'
    exact ⟨t'', ht'', hk.trans hk' h'.finished⟩
  steady := by
    intro i t'' hi ht''
    obtain ⟨t', ht', hs'⟩ := h'.steady hi ht''
    obtain ⟨t, ht, hs⟩ := h.steady hi ht'
    refine ⟨t, ht, hs'.id.trans hs.id, hs'.wait.trans hs.wait, hs'.coroutine.trans hs.coroutine,
      hs'.interruption.trans hs.interruption, hs'.error.trans hs.error,
      hs'.running.trans hs.running, hs'.done.trans hs.done, ?_, fun hne => ?_, fun he => ?_⟩
    · intro c hc
      rcases hs'.added c hc with hc | hh
      · rcases hs.added c hc with hc | hh
        · exact Or.inl hc
        · exact Or.inr (hh.evolve h' (fun _ => h'.finished) fun _ => id)
      · exact Or.inr hh
    · exact hs'.children_ne (hs.children_ne hne)
    · rcases hs.children_eq he with he | hr
      · rcases hs'.children_eq he with he | hr
        · exact Or.inl he
        · exact Or.inr (hs.running ▸ hs.coroutine ▸ hr)
      · exact Or.inr hr
  finished := fun hi => h'.finished (h.finished hi)

theorem mono {touched' cut' : Nat → Prop} (h : r.Evolves r' touched cut)
    (ht : ∀ i, touched i → touched' i) (hc : ∀ i, cut i → cut' i) : r.Evolves r' touched' cut' where
  kept := by
    intro i t hi
    obtain ⟨t', ht', hk⟩ := h.kept hi
    refine ⟨t', ht', { hk with leaves := fun ha => ?_ }⟩
    rcases hk.leaves ha with ha | ⟨p, hp, hcut⟩
    · exact Or.inl ha
    · exact Or.inr ⟨p, hp, hc p hcut⟩
  steady := fun hn => h.steady fun hi => hn (ht _ hi)
  finished := h.finished

theorem modify {i : Nat} {t : Task} {f : Task → Task} (ht : r.get? i = some t)
    (hid : (f t).id = t.id) (hp : (f t).parent = t.parent) (hd : (f t).done = t.done)
    (ha : (f t).abandoned = t.abandoned) : r.Evolves (r.modify i f) (· = i) cut where
  kept := by
    intro j u hu
    by_cases hj : j = i
    · subst hj
      rw [ht, Option.some.injEq] at hu
      subst hu
      exact ⟨_, get?_modify_of_eq_some f ht, Task.Kept.of_eq hid hp hd ha⟩
    · exact ⟨u, by rw [get?_modify_ne hj]; exact hu, Task.Kept.of_eq rfl rfl rfl rfl⟩
  steady := by
    intro j u hj hu
    rw [get?_modify_ne hj] at hu
    exact ⟨u, hu, rfl, rfl, rfl, rfl, rfl, rfl, rfl, fun _ hc => Or.inl hc, id, Or.inl⟩
  finished := id

theorem flagged {gone : Nat → Prop} (hf : Flagged r r' gone)
    (hg : ∀ i t, gone i → r.get? i = some t → ∃ p, t.parent = some p ∧ cut p) :
    r.Evolves r' touched cut where
  kept := by
    intro i t ht
    obtain ⟨c, l, he, hl⟩ := hf.eq_some ht
    refine ⟨_, he, rfl, rfl, id, Or.inl, fun ha => ?_, fun ha => ?_⟩
    · show (t.abandoned || l) = true
      rw [ha, Bool.true_or]
    · rcases Bool.or_eq_true _ _ ▸ ha with ha | hl'
      · exact Or.inl ha
      · exact Or.inr (hg i t (hl hl') ht)
  steady := by
    intro i t' _ ht'
    obtain ⟨t, c, l, ht, rfl, _⟩ := hf.of_eq_some ht'
    exact ⟨t, ht, rfl, rfl, rfl, rfl, rfl, rfl, rfl, fun _ hc => Or.inl hc, id, Or.inl⟩
  finished := fun hi => hf.finished ▸ hi

/-- Making a task, whose parent runs, is suspended or has children already. -/
theorem create (h : Forest r) {name : String} {wait : Wait} {parent : Option Nat} {detached : Bool}
    {coroutine : Option Coroutine} {entry : Option Entry}
    (hp : ∀ p, parent = some p → ∃ tp, r.get? p = some tp ∧
      (tp.running = true ∨ tp.coroutine.isSome = true)) :
    r.Evolves (r.create name wait parent detached coroutine entry).1 (· = r.size) cut := by
  have hlt : ∀ p, parent = some p → p < r.size := by
    intro p hpp
    obtain ⟨tp, htp, _⟩ := hp p hpp
    exact get?_eq_some_lt htp
  constructor
  case kept =>
    intro i t ht
    exact ⟨_, h.get?_create_old hlt ht, Task.Kept.of_eq rfl rfl rfl rfl⟩
  case steady =>
    intro i t' hi ht'
    rcases h.get?_create_inv hlt ht' with ⟨he, _⟩ | ⟨t, ht, rfl⟩
    · exact (hi he).elim
    by_cases hpi : parent = some i
    · rw [if_pos hpi]
      refine ⟨t, ht, rfl, rfl, rfl, rfl, rfl, rfl, rfl, ?_, fun _ => by simp, fun _ => Or.inr ?_⟩
      · intro c hc
        rcases List.mem_append.mp hc with hc | hc
        · exact Or.inl hc
        · rw [List.mem_singleton.mp hc]
          exact Or.inr ⟨_, Forest.get?_create_new _ _ _ _ _ _ hlt, fun hd => by cases hd⟩
      · obtain ⟨tp, htp, hr⟩ := hp i hpi
        rw [ht, Option.some.injEq] at htp
        exact htp ▸ hr
    · rw [if_neg hpi]
      exact ⟨t, ht, rfl, rfl, rfl, rfl, rfl, rfl, rfl, fun _ hc => Or.inl hc, id, Or.inl⟩
  case finished =>
    intro i hi
    rw [finished_create]
    exact hi

theorem finish (h : Forest r) {i : Nat} {t : Task} (ht : r.get? i = some t) (hd : t.done = false)
    (v : Value) : r.Evolves ((r.modify i (·.finish v)).retire i) (· = i) cut := by
  have hmem : i ∈ (r.modify i (·.finish v)).pending := h.mem_pending.mpr ⟨t, ht, hd⟩
  have hfin : ((r.modify i (·.finish v)).retire i).finished = r.finished ++ [i] := by
    rw [retire_of_mem hmem]
    rfl
  constructor
  case kept =>
    intro j u hu
    rw [get?_retire, hfin]
    by_cases hj : j = i
    · subst hj
      rw [ht, Option.some.injEq] at hu
      subst hu
      exact ⟨_, get?_modify_of_eq_some _ ht, rfl, rfl, fun _ => rfl, fun _ => Or.inr (by simp), id,
        Or.inl⟩
    · exact ⟨u, by rw [get?_modify_ne hj]; exact hu, Task.Kept.of_eq rfl rfl rfl rfl⟩
  case steady =>
    intro j u hj hu
    rw [get?_retire, get?_modify_ne hj] at hu
    exact ⟨u, hu, rfl, rfl, rfl, rfl, rfl, rfl, rfl, fun _ hc => Or.inl hc, id, Or.inl⟩
  case finished =>
    intro j hj
    rw [hfin]
    exact List.mem_append_left _ hj

end Evolves

end Registry

namespace Task

variable {r r' : Registry} {touched cut : Nat → Prop} {news news' : List Nat} {t t' : Task}

/-- The buffer of finished tasks counts only for what a task hears. -/
theorem Standing.congr (h : t.Standing r news) (hget : ∀ i, r'.get? i = r.get? i)
    (hn : ∀ x ∈ news, x ∈ news') : t.Standing r' news' := by
  cases h with
  | ended hd hr => exact .ended hd hr
  | fresh h => exact .fresh h
  | active free hr => exact .active free hr
  | waiting i h =>
    exact .waiting i ⟨h.toBlocked, h.error, h.awaits.congr hget,
      fun d hd => (h.hears d hd).congr hget (hn d)⟩
  | holding i h => exact .holding i h

/-- A task that is not worked on stands as it stood, once it has heard no less than before. Of a
task that runs the children may be let go as well. -/
theorem Standing.evolve (h : t.Standing r news) (hs : t.Steady r' t')
    (hev : r.Evolves r' touched cut) (hc : cut t.id → t.running = true)
    (hn : ∀ x ∈ news, x ∈ news') (hf : ∀ x ∈ r'.finished, x ∈ news') : t'.Standing r' news' := by
  cases h with
  | ended hd hr => exact .ended (hs.done.trans hd) (hs.running.trans hr)
  | fresh h =>
    refine .fresh ⟨hs.done.trans h.done, hs.running.trans h.running,
      hs.interruption.trans h.interruption, hs.error.trans h.error, ?_,
      hs.coroutine.trans h.coroutine⟩
    rcases hs.children_eq h.children with he | hr | hco
    · exact he
    · rw [h.running] at hr
      cases hr
    · rw [h.coroutine] at hco
      cases hco
  | active free hr =>
    exact .active ⟨hs.done.trans free.done, hs.interruption.trans free.interruption,
      hs.error.trans free.error⟩ (hs.running.trans hr)
  | waiting i h =>
    have hcut : ¬ cut t.id := by
      intro hct
      have hr := hc hct
      rw [h.running] at hr
      cases hr
    refine .waiting i ⟨⟨hs.interruption.trans h.interruption, h.unanswered, hs.wait.trans h.tier,
      hs.done.trans h.done, hs.running.trans h.running⟩, hs.error.trans h.error, ?_, ?_⟩
    · rw [hs.id]
      exact h.awaits.evolve hev hcut
    · exact fun d hd => (h.hears d hd).evolve hev hn hf
  | holding i h =>
    refine .holding i ⟨⟨hs.interruption.trans h.interruption, h.unanswered, hs.wait.trans h.tier,
      hs.done.trans h.done, hs.running.trans h.running⟩, h.kind, hs.coroutine.trans h.coroutine,
      hs.children_ne h.children, ?_⟩
    rcases h.holds with ⟨v, hv, he⟩ | ⟨e, hv, he⟩
    · exact Or.inl ⟨v, hv, hs.error.trans he⟩
    · exact Or.inr ⟨e, hv, hs.error.trans he⟩

end Task

end Rehearsal
