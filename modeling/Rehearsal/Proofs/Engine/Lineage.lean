import Rehearsal.Proofs.Engine.Structure
import Rehearsal.Proofs.Engine.Turns

/-!
# Whom a frame reports to

A fork waits for the task it has started and a composite for its placeholders: these are the wards
of the frame. Whatever goes on right above such a frame goes on for its last ward, wards are younger
than everything below them, and a forked task belongs to the nearest task below that runs tested
code. So the stack tells the family of every task that is started, or fails, while others wait for
it.
-/
namespace Rehearsal

variable {σ : Type} {begun : Nat → Prop}

/-- The tasks a frame waits for. -/
def Frame.wards : Frame → List Nat
  | .forked child => [child]
  | .composite k => k.members
  | _ => []

/-- The wards of a frame, and the task it drives. -/
def Frame.holds (f : Frame) : List Nat := f.wards ++ f.runner?.toList

/-- The task that whatever goes on above the stack goes on for. -/
def ward? (stack : List Frame) : Option Nat := stack.head?.bind fun f => f.wards.getLast?

/-- The nearest task that is being driven. -/
def owner? : List Frame → Option Nat
  | [] => none
  | .driving t :: _ => some t
  | _ :: below => owner? below

/-- How a frame stands above others. -/
structure Frame.Fits (r : Registry) (f : Frame) (below : List Frame) : Prop where
  opened : ∀ k, f = .composite k → k.members ≠ []
  sorted : f.wards.Pairwise (· < ·)
  young : ∀ a ∈ f.wards, ∀ g ∈ below, ∀ i ∈ g.holds, i < a
  mine : ∀ t x, f.runner? = some t → ward? below = some x → x = t
  bare : ∀ p, f = .member p → ∃ u, r.get? p = some u ∧ u.coroutine = none
  kin : ∀ c, f = .forked c → ∃ u, r.get? c = some u ∧
    ((u.detached = true ∧ u.parent = none) ∨ (u.detached = false ∧ u.parent = owner? below))

inductive Lineage (r : Registry) : List Frame → Prop
  | nil : Lineage r []
  | cons {f : Frame} {below : List Frame} (h : Lineage r below) (fits : f.Fits r below) :
      Lineage r (f :: below)

/-- The task that a control has in its hands. -/
def Control.subject? : Control → Option Nat
  | .drive t _ | .runTask t | .start t | .complete t _ | .fail t _ | .propagate t _ => some t
  | _ => none

theorem Failure.subject?_control (f : Failure) : f.control.subject? = none := by
  cases f with
  | exn e =>
    unfold control
    dsimp only
    split <;> rfl
  | harness _ => rfl

/-- A run that is not being given up: its stack has a lineage, and what is in hand is the ward of
the top frame. -/
structure Config.Lineal (c : Config σ) : Prop where
  stack : Lineage c.machine.registry c.stack
  subject : ∀ t x, c.control.subject? = some t → ward? c.stack = some x → x = t

namespace Lineage

variable {r r' : Registry} {f : Frame} {stack below : List Frame}

theorem tail (h : Lineage r (f :: below)) : Lineage r below := by
  cases h with
  | cons h _ => exact h

theorem fits (h : Lineage r (f :: below)) : f.Fits r below := by
  cases h with
  | cons _ fits => exact fits

/-- Frames without wards stand above anything. -/
theorem idle (h : Lineage r below) (hw : f.wards = []) (hr : f.runner? = none)
    (hk : ∀ k, f ≠ .composite k) (hm : ∀ p, f ≠ .member p) (hf : ∀ c, f ≠ .forked c) :
    Lineage r (f :: below) := by
  refine .cons h ⟨fun k h => (hk k h).elim, ?_, ?_, ?_, fun p h => (hm p h).elim,
    fun c h => (hf c h).elim⟩
  · rw [hw]
    exact .nil
  · intro a ha
    rw [hw] at ha
    cases ha
  · intro t x ht
    rw [hr] at ht
    cases ht

/-- Placeholders that still run have no coroutine, and family is for ever. -/
theorem transfer (h : Lineage r stack)
    (hm : ∀ p u, .member p ∈ stack → r.get? p = some u → u.coroutine = none →
      ∃ u', r'.get? p = some u' ∧ u'.coroutine = none)
    (hk : ∀ i u, r.get? i = some u →
      ∃ u', r'.get? i = some u' ∧ u'.parent = u.parent ∧ u'.detached = u.detached) :
    Lineage r' stack := by
  induction h with
  | nil => exact .nil
  | cons _ fits ih =>
    refine .cons (ih fun p u hp => hm p u (List.mem_cons_of_mem _ hp))
      { fits with bare := fun p hp => ?_, kin := fun c hc => ?_ }
    · obtain ⟨u, hu, hco⟩ := fits.bare p hp
      exact hm p u (hp ▸ List.mem_cons_self ..) hu hco
    · obtain ⟨u, hu, hkin⟩ := fits.kin c hc
      obtain ⟨u', hu', hp, hd⟩ := hk c u hu
      rw [← hp, ← hd] at hkin
      exact ⟨u', hu', hkin⟩

/-- A placeholder is put on top. -/
theorem member (h : Lineage r stack) {p : Nat} {u : Task} (hp : ward? stack = some p)
    (hu : r.get? p = some u) (hco : u.coroutine = none) : Lineage r (.member p :: stack) := by
  refine .cons h ⟨nofun, .nil, nofun, ?_, ?_, nofun⟩
  · rintro t x ⟨⟩ hx
    rw [hp, Option.some.injEq] at hx
    exact hx.symm
  · rintro _ ⟨⟩
    exact ⟨u, hu, hco⟩

/-- A task that whatever is below goes on for is driven. -/
theorem driving (h : Lineage r stack) {t : Nat} (ht : ∀ x, ward? stack = some x → x = t) :
    Lineage r (.driving t :: stack) := by
  refine .cons h ⟨nofun, .nil, nofun, ?_, nofun, nofun⟩
  rintro _ x ⟨⟩ hx
  exact ht x hx

/-- A fork stands above whatever is older than the task it waits for. -/
theorem forked (h : Lineage r stack) {c : Nat} {u : Task}
    (young : ∀ g ∈ stack, ∀ i ∈ g.holds, i < c) (hu : r.get? c = some u)
    (kin : (u.detached = true ∧ u.parent = none) ∨
      (u.detached = false ∧ u.parent = owner? stack)) :
    Lineage r (.forked c :: stack) := by
  refine .cons h ⟨nofun, List.pairwise_singleton .., fun a ha => ?_, nofun, nofun, ?_⟩
  · rw [List.mem_singleton.mp ha]
    exact young
  · rintro _ ⟨⟩
    exact ⟨u, hu, kin⟩

/-- A composite goes on to its next placeholder, which is put on top of it. -/
theorem enrol (h : Lineage r below) {k : Composite} {older : List Nat} {p : Nat} {u : Task}
    (members : k.members = older ++ [p]) (sorted : (older ++ [p]).Pairwise (· < ·))
    (young : ∀ a ∈ older ++ [p], ∀ g ∈ below, ∀ i ∈ g.holds, i < a)
    (hu : r.get? p = some u) (hco : u.coroutine = none) :
    Lineage r (.member p :: .composite k :: below) := by
  have hwards : (Frame.composite k).wards = older ++ [p] := members
  have hlast : ward? (.composite k :: below) = some p := by
    show (Frame.composite k).wards.getLast? = _
    rw [hwards, List.getLast?_append]
    rfl
  have hfits : (Frame.composite k).Fits r below := by
    refine ⟨?_, ?_, ?_, nofun, nofun, nofun⟩
    · rintro _ ⟨⟩
      simp [members]
    · rw [hwards]
      exact sorted
    · rw [hwards]
      exact young
  exact .member (.cons h hfits) hlast hu hco

end Lineage

namespace Core

variable {r : Registry} {reaped : List Nat} {stack : List Frame} {subject : Option Nat}

/-- All that frames hold is there. -/
theorem holds_lt (h : Core begun r reaped stack subject) {f : Frame} (hf : f ∈ stack) {i : Nat}
    (hi : i ∈ f.holds) : i < r.size := by
  have hs := h.frames f hf
  cases f with
  | driving t =>
    obtain rfl : i = t := by simpa [Frame.holds, Frame.wards, Frame.runner?] using hi
    obtain ⟨u, hu, _⟩ := hs
    exact Registry.get?_eq_some_lt hu
  | member p =>
    obtain rfl : i = p := by simpa [Frame.holds, Frame.wards, Frame.runner?] using hi
    obtain ⟨u, hu⟩ := hs
    exact Registry.get?_eq_some_lt hu
  | forked c =>
    obtain rfl : i = c := by simpa [Frame.holds, Frame.wards, Frame.runner?] using hi
    obtain ⟨u, hu⟩ := hs
    exact Registry.get?_eq_some_lt hu
  | composite k =>
    have hmem : i ∈ k.members := by simpa [Frame.holds, Frame.wards, Frame.runner?] using hi
    obtain ⟨entry, hentry, rfl⟩ := List.mem_map.mp hmem
    obtain ⟨u, hu, _⟩ := hs entry hentry
    exact Registry.get?_eq_some_lt hu
  | batch rest => cases hi
  | round ids rest => cases hi
  | loop root => cases hi

end Core

/-- One more member of a race or gather that is being looked at is the youngest task held so far. -/
theorem Frame.Fits.enrolled {r : Registry} {reaped : List Nat} {k : Composite} {below : List Frame}
    (h : (Frame.composite k).Fits r below)
    (core : Core begun r reaped (.composite k :: below) none) :
    (k.members ++ [r.size]).Pairwise (· < ·) ∧
      ∀ a ∈ k.members ++ [r.size], ∀ g ∈ below, ∀ i ∈ g.holds, i < a := by
  constructor
  · refine List.pairwise_append.mpr ⟨h.sorted, List.pairwise_singleton .., fun a ha b hb => ?_⟩
    rw [List.mem_singleton.mp hb]
    exact core.holds_lt (List.mem_cons_self ..) (List.mem_append_left _ ha)
  · intro a ha g hg i hi
    rcases List.mem_append.mp ha with ha | ha
    · exact h.young a ha g hg i hi
    · rw [List.mem_singleton.mp ha]
      exact core.holds_lt (List.mem_cons_of_mem _ hg) hi

/-- The nearest task that is being driven runs. -/
theorem mem_runners_of_owner? {stack : List Frame} {p : Nat} (h : owner? stack = some p) :
    p ∈ runners stack := by
  induction stack with
  | nil => cases h
  | cons f below ih =>
    cases f with
    | driving t =>
      cases h
      exact List.mem_cons_self ..
    | member q => exact List.mem_cons_of_mem _ (ih h)
    | _ => exact ih h

theorem owner?_of_ward {f : Frame} {a : Nat} (ha : a ∈ f.wards) (below : List Frame) :
    owner? (f :: below) = owner? below := by
  cases f with
  | driving _ => cases ha
  | _ => rfl

/-- The task that answers for a running one, looked for from there on. -/
theorem Nested.owner?_eq_go {r : Registry} {who : Option Nat} {stack : List Frame}
    (nested : Nested who stack) (forest : r.Forest) (hstands : ∀ f ∈ stack, f.Stands r)
    (h : Lineage r stack) (i : Nat) {t : Nat}
    (ht : who = some t ∨ ∃ k below, stack = .composite k :: below ∧ k.task = t) :
    owner? stack = some (Registry.coroutineOwner.go r i t) := by
  induction nested generalizing t with
  | batch _ _ => rcases ht with ht | ⟨_, _, ht, _⟩ <;> cases ht
  | round _ _ _ => rcases ht with ht | ⟨_, _, ht, _⟩ <;> cases ht
  | forked _ _ _ => rcases ht with ht | ⟨_, _, ht, _⟩ <;> cases ht
  | composite k nested ih =>
    obtain ⟨_, _, hstack, rfl⟩ := ht.resolve_left nofun
    cases hstack
    exact ih (fun f hf => hstands f (List.mem_cons_of_mem _ hf)) h.tail (Or.inl rfl)
  | driving t' nested _ =>
    obtain rfl : t' = t := by
      rcases ht with ht | ⟨_, _, ht, _⟩
      · exact Option.some.inj ht
      · cases ht
    obtain ⟨u, hu, hco⟩ := hstands (.driving t') (List.mem_cons_self ..)
    rw [Registry.coroutineOwner.go]
    simp only [hu, hco, if_true, owner?]
  | @member p k below hp nested ih =>
    obtain rfl : p = t := by
      rcases ht with ht | ⟨_, _, ht, _⟩
      · exact Option.some.inj ht
      · cases ht
    obtain ⟨key, hmem⟩ := hp
    obtain ⟨u, hu, hparent, _⟩ :=
      hstands (.composite k) (List.mem_cons_of_mem _ (List.mem_cons_self ..)) (key, p) hmem
    obtain ⟨v, hv, hco⟩ := h.fits.bare p rfl
    rw [hu, Option.some.injEq] at hv
    subst hv
    rw [Registry.coroutineOwner.go]
    simp only [hu, hco, Option.isSome_none, Bool.false_eq_true, if_false, hparent,
      forest.parent_lt hu hparent, if_true, owner?]
    exact ih (fun f hf => hstands f (List.mem_cons_of_mem _ hf)) h.tail
      (Or.inr ⟨k, below, rfl, rfl⟩)

/-- The task that answers for an effect is the nearest one that is being driven. -/
theorem Nested.owner?_eq {r : Registry} {stack : List Frame} {t : Nat}
    (nested : Nested (some t) stack)
    (core : Core begun r [] stack none) (h : Lineage r stack) :
    owner? stack = some (r.coroutineOwner t) :=
  nested.owner?_eq_go core.forest core.frames h t (Or.inl rfl)

/-- Where a task is being driven, whatever goes on goes on for a ward. -/
theorem exists_ward {r : Registry} {stack : List Frame} {p : Nat} (nested : Nested none stack)
    (h : Lineage r stack) (hp : p ∈ runners stack) : ∃ t, ward? stack = some t := by
  cases nested with
  | batch _ _ => cases hp
  | round _ _ _ => cases hp
  | forked c nested => exact ⟨c, rfl⟩
  | composite k nested =>
    exact ⟨k.members.getLast (h.fits.opened k rfl), List.getLast?_eq_some_getLast _⟩

/-- The parent of a ward: the task whose effect the composite is, or the nearest task that is being
driven below the fork. -/
theorem parent_of_ward {r : Registry} {f : Frame} {below : List Frame} {a p : Nat} {u : Task}
    {who : Option Nat} (hs : f.Stands r) (nested : Nested who (f :: below))
    (h : Lineage r (f :: below)) (ha : a ∈ f.wards) (hu : r.get? a = some u)
    (hp : u.parent = some p) :
    (Nested (some p) below ∧ u.abandoned = false) ∨ (f = .forked a ∧ owner? below = some p) := by
  cases nested with
  | batch _ _ => cases ha
  | round _ _ _ => cases ha
  | forked c nested =>
    obtain rfl : a = c := List.mem_singleton.mp ha
    obtain ⟨v, hv, hkin⟩ := h.fits.kin a rfl
    rw [hu, Option.some.injEq] at hv
    subst hv
    rcases hkin with ⟨_, hn⟩ | ⟨_, hs⟩
    · rw [hp] at hn
      cases hn
    · rw [hp] at hs
      exact Or.inr ⟨rfl, hs.symm⟩
  | composite k nested =>
    obtain ⟨entry, hentry, rfl⟩ := List.mem_map.mp ha
    obtain ⟨v, hv, hvp, hkept⟩ := hs entry hentry
    rw [hu, Option.some.injEq] at hv
    subst hv
    rw [hp, Option.some.injEq] at hvp
    subst hvp
    exact Or.inl ⟨nested, hkept⟩
  | driving _ _ => cases ha
  | member _ _ _ => cases ha

/-- The parent of a ward runs. -/
theorem parent_runs {r : Registry} {f : Frame} {below : List Frame} {a p : Nat} {u : Task}
    {who : Option Nat} (hs : f.Stands r) (nested : Nested who (f :: below))
    (h : Lineage r (f :: below)) (ha : a ∈ f.wards) (hu : r.get? a = some u)
    (hp : u.parent = some p) :
    p ∈ runners below := by
  rcases parent_of_ward hs nested h ha hu hp with ⟨hn, _⟩ | ⟨_, ho⟩
  · exact hn.runner_mem
  · exact mem_runners_of_owner? ho

theorem ward?_eq_some {stack : List Frame} {a : Nat} (h : ward? stack = some a) :
    ∃ f below, stack = f :: below ∧ a ∈ f.wards := by
  cases stack with
  | nil => cases h
  | cons f below => exact ⟨f, below, rfl, List.mem_of_getLast? h⟩

theorem runners_subset_cons (f : Frame) (below : List Frame) :
    runners below ⊆ runners (f :: below) := by
  intro i hi
  obtain ⟨g, hg, hgi⟩ := List.mem_filterMap.mp hi
  exact List.mem_filterMap.mpr ⟨g, List.mem_cons_of_mem _ hg, hgi⟩

/-- The failure of a ward is told to nobody: its parent runs. -/
theorem Registry.Heeds.ward_ne {r : Registry} {stack : List Frame} {t p : Nat} {u up : Task}
    (heeds : r.Heeds t p u up) (core : Core begun r [] stack none) (nested : Nested none stack)
    (h : Lineage r stack) : ward? stack ≠ some t := by
  intro ht
  obtain ⟨f, below, rfl, hward⟩ := ward?_eq_some ht
  have hmem := parent_runs (core.frames f (List.mem_cons_self ..)) nested h hward heeds.task
    heeds.parent
  have hrun := (core.running_iff heeds.owner).mpr (runners_subset_cons f below hmem)
  rw [heeds.idle] at hrun
  cases hrun

namespace Config

/-- A step that propagates a failure to a parent that runs changes no task. -/
theorem deaf_of_running {o : RunOptions} {m : Machine σ} {stack : List Frame}
    {c' : Config σ} {t p : Nat}
    {e : Exn} {u up : Task} (turn : Turn o ⟨m, stack, .propagate t e⟩ c')
    (hu : m.registry.get? t = some u)
    (hp : u.parent = some p) (hup : m.registry.get? p = some up) (hr : up.running = true) :
    c' = halt c'.machine stack ∧ c'.machine.registry = m.registry := by
  cases turn with
  | subsides _ _ task same _ _ => exact ⟨rfl, same⟩
  | surfaces _ _ task parent _ =>
    rw [hu, Option.some.injEq] at task
    rw [← task, hp] at parent
    cases parent
  | climbs _ _ heeds _ =>
    have htask := heeds.task
    rw [hu, Option.some.injEq] at htask
    have hparent := heeds.parent
    rw [← htask, hp, Option.some.injEq] at hparent
    have howner := heeds.owner
    rw [← hparent, hup, Option.some.injEq] at howner
    have hidle := heeds.idle
    rw [← howner, hr] at hidle
    cases hidle
  | yields resumes _ => cases resumes
  | returns resumes _ => cases resumes
  | escapes resumes _ => cases resumes
  | dies resumes _ => cases resumes

/-- A placeholder that stands at work is driven by one frame only. -/
theorem top_member {r : Registry} {f : Frame} {below : List Frame} {p : Nat}
    (core : Core begun r [] (f :: below) none) (hf : f.runner? = some p)
    (hp : .member p ∈ f :: below) : f = .member p ∧ .member p ∉ below := by
  have hrun : runners (f :: below) = p :: runners below := by
    simp only [runners, List.filterMap_cons, hf]
  have halone := core.alone
  rw [hrun] at halone
  have hn : .member p ∉ below := fun hmem =>
    (List.nodup_cons.mp halone).1 (List.mem_filterMap.mpr ⟨_, hmem, rfl⟩)
  exact ⟨((List.mem_cons.mp hp).resolve_right hn).symm, hn⟩

/-- A placeholder that goes on running is spared. -/
theorem spared_of_member (w : World σ) (o : RunOptions) {c : Config σ} {p : Nat} {u : Task}
    (hc : c.Sound begun) (habort : ∀ f, c.control ≠ .abort f) (hp : .member p ∈ c.stack)
    (hp' : .member p ∈ (c.step w o).stack) (hu : c.machine.registry.get? p = some u) :
    ∃ u', (c.step w o).machine.registry.get? p = some u' ∧ u'.coroutine = u.coroutine := by
  by_cases hw : c.footprint.works p
  case neg =>
    obtain ⟨u', hu', _, hs⟩ := (moves_step w o c).kept hu
    exact ⟨u', hu', (hs hw).coroutine⟩
  have hturn := turn_step w o hc
  have hrun : p ∈ runners c.stack := List.mem_filterMap.mpr ⟨_, hp, rfl⟩
  generalize c.step w o = c' at hp' hturn ⊢
  obtain ⟨m, stack, control⟩ := c
  have haside : ∀ {r : Registry} {reaped}, Core begun r reaped stack (some p) → False :=
    fun core => core.aside p rfl hrun
  cases hc with
  | aborted f _ => exact (habort f rfl).elim
  | looking _ _ => exact hw.elim
  | settled _ _ => exact hw.elim
  | interpreting _ _ _ _ => exact hw.elim
  | bubbling _ _ _ => exact hw.elim
  | driving core _ _ _ => cases (show p = _ from hw); exact (haside core).elim
  | starting core _ _ _ _ => cases (show p = _ from hw); exact (haside core).elim
  | completing _ core _ _ _ _ => cases (show p = _ from hw); exact (haside core).elim
  | failing _ core _ _ _ _ => cases (show p = _ from hw); exact (haside core).elim
  | selected core _ _ _ => cases (show p = _ from hw); exact (haside core).elim
  | raised e core nested =>
    obtain ⟨f, below, rfl, _⟩ := nested.inv_some
    obtain ⟨rfl, hn⟩ := top_member core hw hp
    cases hturn with
    | sinks _ _ _ => exact (hn hp').elim
    | yields resumes _ => cases resumes
    | returns resumes _ => cases resumes
    | escapes resumes _ => cases resumes
    | dies resumes _ => cases resumes
  | answered core nested stands =>
    obtain ⟨f, below, rfl, _⟩ := nested.inv_some
    obtain ⟨rfl, hn⟩ := top_member core hw hp
    cases hturn with
    | fills _ _ _ => exact (hn hp').elim
    | enters _ _ _ => exact (hn hp').elim
    | blocks _ _ _ => exact (hn hp').elim
    | yields resumes _ => cases resumes
    | returns resumes _ => cases resumes
    | escapes resumes _ => cases resumes
    | dies resumes _ => cases resumes
  | propagating e core nested task parent =>
    obtain ⟨v, hv, hvp⟩ := hw
    obtain ⟨_, hsame⟩ := deaf_of_running hturn hv hvp hu ((core.running_iff hu).mpr hrun)
    rw [hsame]
    exact ⟨u, hu, rfl⟩
  | resting core nested =>
    cases nested with
    | batch _ _ => exact hw.elim
    | forked _ _ => exact hw.elim
    | composite _ _ => exact hw.elim
    | round ids rest root => simp at hp

/-- Frames that stay where they are keep their lineage. -/
theorem lineage_kept (w : World σ) (o : RunOptions) {c : Config σ} (hc : c.Sound begun)
    (habort : ∀ f, c.control ≠ .abort f) (below : List Frame)
    (h : Lineage c.machine.registry below) (hs : below ⊆ c.stack)
    (hs' : below ⊆ (c.step w o).stack) :
    Lineage (c.step w o).machine.registry below := by
  refine h.transfer (fun p u hp hu hco => ?_) fun i u hu => ?_
  · obtain ⟨u', hu', he⟩ := spared_of_member w o hc habort (hs hp) (hs' hp) hu
    exact ⟨u', hu', he.trans hco⟩
  · obtain ⟨u', hu', ha⟩ := (amends_step w o c).kept hu
    exact ⟨u', hu', ha.parent, ha.detached⟩

/-- A coroutine is resumed on account of the ward of what is below. -/
theorem Lineal.mine {c : Config σ} (h : c.Lineal) {t : Nat} {s : Signal} {below : List Frame}
    (hr : Resumes c.stack c.control t s below) :
    Lineage c.machine.registry below ∧ ∀ x, ward? below = some x → x = t := by
  obtain ⟨m, stack, control⟩ := c
  have hl := h.stack
  cases hr with
  | driven _ _ _ => exact ⟨hl, fun x => h.subject t x rfl⟩
  | answered _ _ _ => exact ⟨hl.tail, fun x => hl.fits.mine t x rfl⟩
  | entered _ _ _ => exact ⟨hl.tail, fun x => hl.fits.mine t x rfl⟩
  | thrown _ _ _ => exact ⟨hl.tail, fun x => hl.fits.mine t x rfl⟩

/-- A failure on its way through the frames is in nobody's hands. -/
theorem lineal_failure {m : Machine σ} {stack : List Frame} (h : Lineage m.registry stack)
    (f : Failure) : (⟨m, stack, f.control⟩ : Config σ).Lineal := by
  refine ⟨h, fun t x ht => ?_⟩
  rw [Failure.subject?_control] at ht
  cases ht

/-- **A step keeps the lineage of the stack.** -/
theorem lineal_step (w : World σ) (o : RunOptions) {c : Config σ} (hc : c.Sound begun)
    (habort : ∀ f, c.control ≠ .abort f) (h : c.Lineal) : (c.step w o).Lineal := by
  have hkept := lineage_kept w o hc habort
  have hturn := turn_step w o hc
  generalize c.step w o = c' at hkept hturn ⊢
  have hl := h.stack
  have hself := fun (stack : List Frame) => List.Subset.refl stack
  have hcons := fun (f : Frame) (stack : List Frame) => List.subset_cons_self f stack
  cases hturn with
  | yields resumes _ | dies resumes _ =>
    obtain ⟨hbelow, hmine⟩ := h.mine resumes
    exact ⟨(hkept _ hbelow resumes.subset (hcons ..)).driving hmine, nofun⟩
  | returns resumes _ | escapes resumes _ =>
    obtain ⟨hbelow, hmine⟩ := h.mine resumes
    exact ⟨hkept _ hbelow resumes.subset (hself _), fun _ x ht => by cases ht; exact hmine x⟩
  | fills p | enters p | sinks p =>
    exact ⟨hkept _ hl.tail (hcons ..) (hself _),
      fun _ x ht => by cases ht; exact hl.fits.mine p x rfl⟩
  | blocks | concludes | bubbles => exact ⟨hkept _ hl.tail (hcons ..) (hself _), nofun⟩
  | replies | completes | subsides | stops => exact ⟨hkept _ hl (hself _) (hself _), nofun⟩
  | refuses stack t effect b f => exact lineal_failure (hkept _ hl (hself _) (hself _)) f
  | condemns | rethrows => exact lineal_failure hl.tail _
  | forks stack t effect b made born =>
    cases hc with
    | interpreting _ _ core nested =>
      refine ⟨(hkept _ hl (hself _) (hcons ..)).forked
        (fun g hg i hi => core.holds_lt hg hi) made ?_,
        fun _ x ht hx => by cases ht; cases hx; rfl⟩
      rw [nested.owner?_eq core hl]
      exact born.kin
  | opens stack t effect member b task members made bare =>
    cases hc with
    | interpreting _ _ core nested =>
      refine ⟨(hkept _ hl (hself _) fun f hf => by simp [hf]).enrol
        (show _ = [] ++ [_] from members) (List.pairwise_singleton ..) (fun a ha g hg i hi => ?_)
        made bare, nofun⟩
      rw [List.mem_singleton.mp ha]
      exact core.holds_lt hg hi
  | @continues m _ below k k' member u rest task members made bare =>
    cases hc with
    | resting core nested =>
      obtain ⟨hsorted, hyoung⟩ := hl.fits.enrolled core
      exact ⟨(hkept _ hl.tail (hcons ..) fun f hf => by simp [hf]).enrol members hsorted hyoung
        made bare, nofun⟩
  | marks below task hale => exact ⟨hl.tail, nofun⟩
  | runs stack t leads =>
    refine ⟨hkept _ hl (hself _) (hself _), fun t' x ht => ?_⟩
    rcases leads with rfl | ⟨v, rfl⟩ | ⟨v, rfl⟩ | rfl <;> cases ht <;> exact h.subject t x rfl
  | starts stack t leads =>
    refine ⟨hkept _ hl (hself _) (hself _), fun t' x ht => ?_⟩
    rcases leads with rfl | rfl | ⟨e, _, rfl⟩ | ⟨f, rfl⟩ <;> cases ht <;> exact h.subject t x rfl
  | fails stack t e =>
    exact ⟨hkept _ hl (hself _) (hself _), fun _ x ht => by cases ht; exact h.subject t x rfl⟩
  | surfaces | quiets | balks => exact ⟨hl, nofun⟩
  | @climbs _ _ stack t p e u up heeds control leads =>
    refine ⟨hkept _ hl (hself _) (hself _), fun _ x _ hx => ?_⟩
    obtain rfl := h.subject t x rfl hx
    cases hc with
    | propagating _ core nested _ _ => exact (heeds.ward_ne core nested hl hx).elim
  | picks below t frames leads =>
    rcases frames with ⟨rest, rfl, rfl⟩ | ⟨ids, rest, rfl, rfl⟩ <;>
      exact ⟨(hkept _ hl.tail (hcons ..) (hcons ..)).idle rfl rfl nofun nofun nofun, nofun⟩
  | rounds | unblocks =>
    exact ⟨(hkept _ hl (hself _) (hcons ..)).idle rfl rfl nofun nofun nofun, nofun⟩
  | ends | rests => exact ⟨.nil, nofun⟩
  | unwinds stack f => exact (habort f rfl).elim

theorem lineal_launched (outer : σ) (name : String) (g : Nat) : (launched outer name g).Lineal where
  stack := by
    show Lineage _ [.batch [], .loop _]
    refine .idle (.idle .nil rfl rfl ?_ ?_ ?_) rfl rfl ?_ ?_ ?_
    all_goals exact fun _ => nofun
  subject _ _ _ hx := by cases hx

/-- A run that has not been given up was not given up before. -/
theorem not_abort_of_run (w : World σ) (o : RunOptions) {c : Config σ} {k n : Nat} (hk : k ≤ n)
    (h : ∀ f, (run w o n c).control ≠ .abort f) (f : Failure) :
    (run w o k c).control ≠ .abort f := by
  intro hf
  obtain ⟨j, rfl⟩ := Nat.exists_eq_add_of_le hk
  refine h f ?_
  rw [run_add]
  exact run_abort w o hf j

end Config

end Rehearsal
