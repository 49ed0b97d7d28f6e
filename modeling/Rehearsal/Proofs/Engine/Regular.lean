import Rehearsal.Proofs.Engine.Failing

/-!
# Regular configurations

What the following modules need to know of a configuration on the way: that it is sound, and, unless
the run is being given up, that its stack has a lineage, that what is on its way may be caught, and
that no fork waits for a task that has been let go of.
-/
namespace Rehearsal

variable {σ : Type} {begun : Nat → Prop}

theorem Nested.tail {who : Option Nat} {f : Frame} {below : List Frame}
    (h : Nested who (f :: below)) :
    (∃ who', Nested who' below) ∨ ∃ root, below = [.loop root] := by
  cases h with
  | batch _ root => exact Or.inr ⟨root, rfl⟩
  | round _ _ root => exact Or.inr ⟨root, rfl⟩
  | forked _ h => exact Or.inl ⟨_, h⟩
  | composite _ h => exact Or.inl ⟨_, h⟩
  | driving _ h => exact Or.inl ⟨_, h⟩
  | member _ _ h => exact Or.inl ⟨_, h⟩

namespace Core

variable {r : Registry} {reaped : List Nat} {stack : List Frame} {subject : Option Nat}

/-- Whoever runs is there, and free. -/
theorem runner (h : Core begun r reaped stack subject) {p : Nat} (hp : p ∈ runners stack) :
    ∃ u, r.get? p = some u ∧ u.running = true ∧ u.Free := by
  obtain ⟨u, hu⟩ := h.exists_of_mem_runners hp
  have hs : subject ≠ some p := fun he => h.aside p he hp
  have hr := (h.running hu hs).mpr hp
  exact ⟨u, hu, hr, (h.standing hu hs).free hr⟩

end Core

/-- Until a run is given up there is something to say of its tasks as long as there is a stack. -/
theorem Sound.on_stack {r : Registry} {stack : List Frame} {control : Control}
    (h : Sound begun r stack control) (habort : ∀ f, control ≠ .abort f) :
    (∃ subject who, Core begun r [] stack subject ∧ Nested who stack) ∨
      (∃ root, stack = [.loop root]) ∨ stack = [] := by
  cases h with
  | aborted f _ => exact (habort f rfl).elim
  | looking _ _ => exact Or.inr (Or.inl ⟨0, rfl⟩)
  | bubbling _ _ _ => exact Or.inr (Or.inl ⟨0, rfl⟩)
  | settled _ _ => exact Or.inr (Or.inr rfl)
  | _ => exact Or.inl ⟨_, _, ‹_›, ‹_›⟩

/-- The parent of a task that is tended runs below. -/
theorem Tended.parent_runs {r : Registry} {stack below : List Frame} {a p : Nat} {u : Task}
    {who : Option Nat} (h : Tended a below stack) (hs : ∀ f ∈ stack, f.Stands r)
    (nested : Nested who stack) (hl : Lineage r stack) (hu : r.get? a = some u)
    (hp : u.parent = some p) : p ∈ runners below := by
  induction h generalizing who with
  | top ward => exact Rehearsal.parent_runs (hs _ (List.mem_cons_self ..)) nested hl ward hu hp
  | under h ih =>
    rcases nested.tail with ⟨who', nested'⟩ | ⟨root, rfl⟩
    · exact ih (fun f hf => hs f (List.mem_cons_of_mem _ hf)) nested' hl.tail
    · cases h.skip rfl

/-- A fork on the stack was there before, or its task has just been made. -/
theorem Turn.forked_before {o : RunOptions} {c c' : Config σ} {child : Nat} (turn : Turn o c c')
    (h : .forked child ∈ c'.stack) : .forked child ∈ c.stack ∨
      ∃ u, c'.machine.registry.get? child = some u ∧ u.abandoned = false := by
  obtain ⟨below, htops⟩ := Tops.of_mem (P := (· = .forked child)) h rfl
  rcases turn.tops_before htops with h | ⟨f, rfl, hpush⟩
  · obtain ⟨f, hf, rfl⟩ := h.exists_mem
    exact Or.inl hf
  · cases hpush with
    | forked _ _ made born => exact Or.inr ⟨_, made, born.kept⟩
    | looped wards _ => cases wards

namespace Config

/-- A task that is resumed is free. -/
theorem free_of_resumption {c : Config σ} (hc : c.Sound begun) {s : Signal}
    (h : c.resumption? t = some s) :
    ∃ v, c.machine.registry.get? t = some v ∧ v.Free := by
  obtain ⟨below, hr⟩ := resumption?_eq_some.mp h
  obtain ⟨m, stack, control⟩ := c
  cases hr with
  | driven _ _ _ =>
    cases hc with
    | driving _ _ task poised => exact ⟨_, task, poised.toFree⟩
  | answered _ _ _ =>
    cases hc with
    | answered core _ _ =>
      obtain ⟨v, hv, _, free⟩ := core.runner (List.mem_cons_self ..)
      exact ⟨v, hv, free⟩
  | entered _ _ _ =>
    cases hc with
    | answered core _ _ =>
      obtain ⟨v, hv, _, free⟩ := core.runner (List.mem_cons_self ..)
      exact ⟨v, hv, free⟩
  | thrown _ _ _ =>
    cases hc with
    | raised _ core _ =>
      obtain ⟨v, hv, _, free⟩ := core.runner (List.mem_cons_self ..)
      exact ⟨v, hv, free⟩

structure Regular (c : Config σ) : Prop where
  sound : ∃ begun, c.Sound begun
  ordinary : c.Ordinary
  orphans : c.machine.registry.Orphans
  root : ∃ u, c.machine.registry.get? 0 = some u ∧ u.detached = false
  /-- Only tasks with a parent have been let go of. -/
  gone : ∀ i u, c.machine.registry.get? i = some u → u.abandoned = true → u.parent ≠ none

structure Underway (c : Config σ) : Prop extends Regular c where
  live : ∀ f, c.control ≠ .abort f
  lineal : c.Lineal
  kept : ∀ child u, .forked child ∈ c.stack → c.machine.registry.get? child = some u →
    u.abandoned = false

theorem Regular.step {c : Config σ} (h : c.Regular) (w : World σ) (o : RunOptions) :
    (c.step w o).Regular := by
  obtain ⟨begun, hs⟩ := h.sound
  refine ⟨⟨_, sound_step w o hs⟩, ordinary_step w o hs h.ordinary,
    (amends_step w o c).orphans h.orphans, ?_, fun i u' hu' ha => ?_⟩
  · obtain ⟨u, hu, hd⟩ := h.root
    obtain ⟨u', hu', hk⟩ := (amends_step w o c).kept hu
    exact ⟨u', hu', hk.detached.trans hd⟩
  · by_cases hbefore : ∃ u, c.machine.registry.get? i = some u ∧ u.abandoned = true
    · obtain ⟨u, hu, hab⟩ := hbefore
      obtain ⟨u'', hu'', hk⟩ := (amends_step w o c).kept hu
      rw [hu', Option.some.injEq] at hu''
      subst hu''
      rw [hk.parent]
      exact h.gone i u hu hab
    · have hkept : ∀ u, c.machine.registry.get? i = some u → u.abandoned = false := by
        intro u hu
        cases hab : u.abandoned with
        | false => rfl
        | true => exact (hbefore ⟨u, hu, hab⟩).elim
      obtain ⟨u, p, up, hlet⟩ := letGoBy_of_step w o hs hu' ha hkept
      obtain ⟨u'', hu'', hk⟩ := (amends_step w o c).kept hlet.task
      rw [hu', Option.some.injEq] at hu''
      subst hu''
      rw [hk.parent, hlet.parent]
      exact Option.some_ne_none p

/-- Whoever is being driven runs. -/
theorem Underway.runs {c : Config σ} (h : c.Underway) {p : Nat} (hp : p ∈ runners c.stack) :
    ∃ u, c.machine.registry.get? p = some u ∧ u.running = true ∧ u.Free := by
  obtain ⟨begun, hs⟩ := h.sound
  rcases Sound.on_stack hs h.live with ⟨subject, who, core, _⟩ | ⟨root, hstack⟩ | hstack
  · exact core.runner hp
  · rw [hstack] at hp
    cases hp
  · rw [hstack] at hp
    cases hp

/-- A task that is waited for has a parent that runs. -/
theorem Underway.parent_runs {c : Config σ} (h : c.Underway) {a p : Nat}
    {below : List Frame} {u : Task}
    (ht : Tended a below c.stack) (hu : c.machine.registry.get? a = some u)
    (hp : u.parent = some p) :
    p ∈ runners below ∧ ∃ up, c.machine.registry.get? p = some up ∧
    up.running = true ∧ up.Free := by
  obtain ⟨begun, hs⟩ := h.sound
  rcases Sound.on_stack hs h.live with ⟨subject, who, core, nested⟩ | ⟨root, hstack⟩ | hstack
  · have hmem := ht.parent_runs core.frames nested h.lineal.stack hu hp
    exact ⟨hmem, h.runs (ht.runners_subset hmem)⟩
  · rw [hstack] at ht
    cases ht.skip rfl
  · rw [hstack] at ht
    cases ht

theorem Underway.step {c : Config σ} (h : c.Underway) (w : World σ) (o : RunOptions)
    (live : ∀ f, (c.step w o).control ≠ .abort f) : (c.step w o).Underway := by
  obtain ⟨begun, hs⟩ := h.sound
  refine ⟨h.toRegular.step w o, live, lineal_step w o hs h.live h.lineal, fun child u' hf hu' => ?_⟩
  have hturn := turn_step w o hs
  rcases hturn.forked_before hf with hf₀ | ⟨v, hv, hkept⟩
  · cases hab : u'.abandoned with
    | false => rfl
    | true =>
      exfalso
      obtain ⟨u, p, up, hlet⟩ := letGoBy_of_step w o hs hu' hab fun u => h.kept child u hf₀
      obtain ⟨below, ht⟩ : ∃ below, Tended child below c.stack :=
        Tops.of_mem hf₀ (List.mem_singleton.mpr rfl)
      obtain ⟨_, up', hup, hrun, _⟩ := h.parent_runs ht hlet.task hlet.parent
      rw [hlet.owner, Option.some.injEq] at hup
      subst hup
      obtain ⟨_, f, hward, hstack⟩ := hlet.concluded hrun
      have hl := h.lineal.stack
      rw [hstack] at hl
      exact Nat.lt_irrefl child (hl.fits.young child hward _ hf child (List.mem_singleton.mpr rfl))
  · rw [hu', Option.some.injEq] at hv
    exact hv ▸ hkept

theorem regular_launched (outer : σ) (name : String) (g : Nat) :
    (launched outer name g).Regular := by
  have honly : ∀ i u, (launched outer name g).machine.registry.get? i = some u →
      i = 0 ∧ u.parent = none ∧ u.detached = false ∧ u.abandoned = false := by
    intro i u hu
    rcases Registry.get?_create_cases
        (fun _ hp => by cases hp) (show (Registry.empty.create name .now
        none false (some (.ofGenerator g)) none).1.get? i =
          some u from hu) with ⟨rfl, rfl⟩ | ⟨hlt, _⟩
    · exact ⟨rfl, rfl, rfl, rfl⟩
    · exact absurd hlt (Nat.not_lt_zero i)
  refine ⟨⟨_, sound_launched outer name g⟩, ordinary_launched outer name g, ?_, ?_, ?_⟩
  · exact fun i u hu _ => (honly i u hu).2.1
  · obtain ⟨u, hu⟩ := Registry.exists_of_lt (show 0 < (launched outer name g).machine.registry.size
      from Nat.one_pos)
    exact ⟨u, hu, (honly 0 u hu).2.2.1⟩
  · intro i u hu ha
    rw [(honly i u hu).2.2.2] at ha
    cases ha

theorem underway_launched (outer : σ) (name : String) (g : Nat) :
    (launched outer name g).Underway :=
  ⟨regular_launched outer name g, nofun, lineal_launched outer name g, by
    intro child u h
    rcases List.mem_pair.mp h with h | h <;> cases h⟩

variable {c : Config σ}

theorem Regular.run (h : c.Regular) (w : World σ) (o : RunOptions) (n : Nat) :
    (run w o n c).Regular := by
  induction n with
  | zero => exact h
  | succ n ih =>
    rw [run_succ]
    split
    · exact ih
    · exact ih.step w o

theorem Underway.run (h : c.Underway) (w : World σ) (o : RunOptions) (n : Nat)
    (live : ∀ f, (run w o n c).control ≠ .abort f) : (run w o n c).Underway := by
  induction n with
  | zero => exact h
  | succ n ih =>
    have hn := ih fun f => not_abort_of_run w o (Nat.le_succ n) live f
    rw [run_succ] at live ⊢
    split
    · exact hn
    · rename_i hf
      rw [if_neg hf] at live
      exact hn.step w o live

end Config

end Rehearsal
