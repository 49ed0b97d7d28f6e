import Rehearsal.Proofs.Engine.Once
import Rehearsal.Proofs.Engine.Relaying

/-!
# No failure of attached work is lost

The parent of a task that fails is told at once if it does not run. If it runs, the task fails under
its eyes: some frame on the stack waits for the task, and raises the failure once it goes on. From
there the exception comes down to the parent, by way of the placeholders in between, unless the run
is given up.
-/
namespace Rehearsal

variable {σ : Type} {begun : Nat → Prop}

/-- A placeholder has no coroutine while its member is interpreted. -/
theorem Lineage.bare_of_mem {r : Registry} {stack : List Frame} (h : Lineage r stack) {p : Nat}
    (hp : .member p ∈ stack) : ∃ u, r.get? p = some u ∧ u.coroutine = none := by
  induction h with
  | nil => cases hp
  | cons _ fits ih =>
    rcases List.mem_cons.mp hp with rfl | hp
    · exact fits.bare p rfl
    · exact ih hp

namespace Config

variable {w : World σ} {o : RunOptions} {c : Config σ} {t n p : Nat}

structure Waits (c : Config σ) (p : Nat) : Prop where
  runs : p ∈ runners c.stack
  underway : c.Underway
  unresumed : c.resumption? p = none

/-- On account of `t`, the exception `e` is raised at step `k` where it reaches `p`, which stands
among the frames in `below`. -/
structure Reaches (w : World σ) (o : RunOptions) (c : Config σ) (t p : Nat)
    (below : List Frame) (k : Nat)
    (e : Exn) (f : Frame) : Prop where
  stems : Stems w o c t k
  control : (run w o k c).control = .raised e
  stack : ∃ under, (run w o k c).stack = f :: under
  mem : f ∈ below
  runner : f.runner? = some p

/-- A placeholder fails of what is raised where it stands, and the composite it belongs to is then
bound to raise its own first failure. -/
theorem member_fails (hc : c.Underway) {q : Nat} {k : Composite} {below : List Frame} {e : Exn}
    (hstack : c.stack = .member q :: .composite k :: below) (hraised : c.control = .raised e) :
    (run w o 1 c).control = .fail q e ∧ (run w o 1 c).stack = .composite k :: below ∧
      (run w o 2 c).control = .propagate q e ∧ (run w o 2 c).stack = .composite k :: below ∧
      (run w o 2 c).machine.Dooms q ((c.machine.firstError? k.members).getD e) (.composite k) ∧
      ∀ f ∈ below, (run w o 2 c).machine.firstError? f.wards = c.machine.firstError? f.wards := by
  have hone : run w o 1 c = c.step w o := run_one w o (by rw [isFinal, hstack]; rfl) 0
  have hfail : (run w o 1 c).control = .fail q e ∧ (run w o 1 c).stack = .composite k :: below := by
    rw [hone]
    simp only [step, hraised, hstack, catchException, and_self]
  obtain ⟨hf, hs⟩ := hfail
  have hu : (run w o 1 c).Underway := hc.run w o 1 fun f h => by
    rw [hf] at h
    cases h
  have htwo : run w o 2 c = (run w o 1 c).step w o :=
    run_succ_of_not_isFinal (by rw [isFinal, hs]; rfl)
  obtain ⟨begun, hsound⟩ := hu.sound
  obtain ⟨hp, hs'⟩ := propagate_of_fail (w := w) (o := o) hsound hf
  have hmem : q ∈ k.members := by
    obtain ⟨begun', hsound'⟩ := hc.sound
    obtain ⟨m, stack, control⟩ := c
    obtain rfl : control = .raised e := hraised
    obtain rfl : stack = .member q :: .composite k :: below := hstack
    cases hsound' with
    | raised _ core nested =>
      cases nested with
      | member _ hq _ =>
        obtain ⟨key, hq⟩ := hq
        exact List.mem_map.mpr ⟨(key, q), hq, rfl⟩
  have htop : .composite k ∈ (run w o 1 c).stack := by
    rw [hs]
    exact List.mem_cons_self ..
  refine ⟨hf, hs, htwo ▸ hp, htwo ▸ hs'.trans hs, ⟨hmem, ?_, by simp⟩, fun f hfb => ?_⟩
  · rw [htwo, first_of_fail w o hu hf htop hmem, hone,
      first_below_step w o hc hstack (List.mem_cons_self ..)]
    rfl
  · rw [htwo, first_below_step w o hu hs hfb, hone,
      first_below_step w o hc hstack (List.mem_cons_of_mem _ hfb)]

section Waiting

variable {below : List Frame} {a k₀ : Nat} {e e₀ : Exn}

/-- What is bound to be raised above `below` comes to be raised there, and whoever runs below waits
until then. -/
theorem comes_down (hp : p ∈ runners below) (hu : (run w o n c).Underway)
    (doom : Tops ((run w o n c).machine.Dooms a e) below (run w o n c).stack)
    (hstems : Stems w o c t k₀) (hfailed : (run w o k₀ c).control = .fail a e₀) (hk₀ : k₀ < n) :
    (∀ j ≥ n, (run w o j c).Waits p) ∨
    ∃ k, n ≤ k ∧ (∀ j, n ≤ j → j < k → (run w o j c).Waits p) ∧
      ((∃ f, (run w o k c).control = .abort f) ∨
        (Stems w o c t k ∧ (run w o k c).control = .raised e ∧ (run w o k c).stack = below ∧
          ∀ f ∈ below, (run w o k c).machine.firstError? f.wards =
            (run w o n c).machine.firstError? f.wards)) := by
  have hadd : ∀ j, run w o j (run w o n c) = run w o (n + j) c := fun j => (run_add w o n j c).symm
  have waits : ∀ j, (run w o j (run w o n c)).Underway ∧
      Tops ((run w o j (run w o n c)).machine.Dooms a e) below (run w o j (run w o n c)).stack →
      (run w o (n + j) c).Waits p := by
    rintro j ⟨huj, htj⟩
    rw [hadd] at huj htj
    obtain ⟨begun, hs⟩ := huj.sound
    exact ⟨htj.runners_subset hp, huj,
      unresumed_of_tops hs nofun (htj.imp fun f _ hf => hf.ward) hp⟩
  rcases raised_of_doomed w o hu doom with hever | ⟨k, hwait, hend⟩
  · refine .inl fun j hnj => ?_
    obtain ⟨i, rfl⟩ := Nat.exists_eq_add_of_le hnj
    exact waits i (hever i)
  refine .inr ⟨n + k, Nat.le_add_right .., fun j hnj hjk => ?_, hend.imp ?_ ?_⟩
  · obtain ⟨i, rfl⟩ := Nat.exists_eq_add_of_le hnj
    exact waits i (hwait i (by omega))
  · rintro ⟨f, hf⟩
    exact ⟨f, hadd k ▸ hf⟩
  · rintro ⟨m, rfl, hraised, hdone, f, hstack, hward⟩
    rw [hadd] at hdone hstack
    have hfirst := fun f (hf : f ∈ below) => first_below_run w o hwait hf
    rw [hadd] at hraised hfirst
    have hcontrol : (run w o (n + m + 1) c).control = .raised e := congrArg Config.control hraised
    exact ⟨.raisedAgain hstems hfailed (Nat.lt_add_right m hk₀) hdone hstack hward hcontrol,
      hcontrol,
      congrArg Config.stack hraised, hfirst⟩

/-- **What is bound to be raised comes down to whom it leads to**, unless the run is given up before
or never comes to that. -/
theorem surfaces (hc : c.Underway) (leads : Leads p below) (hu : (run w o n c).Underway)
    (doom : Tops ((run w o n c).machine.Dooms a e) below (run w o n c).stack)
    (hstems : Stems w o c t k₀) (hfailed : (run w o k₀ c).control = .fail a e₀) (hk₀ : k₀ < n) :
    (∀ j ≥ n, (run w o j c).Waits p) ∨
    ∃ k, n ≤ k ∧ (∀ j, n ≤ j → j < k → (run w o j c).Waits p) ∧
      ((∃ f, (run w o k c).control = .abort f) ∨
        ∃ f, Reaches w o c t p below k ((run w o n c).machine.relay p below e) f) := by
  induction leads generalizing n a e k₀ e₀ with
  | @here f below runner =>
    rcases comes_down (Leads.here runner).mem_runners hu doom hstems hfailed hk₀ with
      hever | ⟨k, hnk, hwait, hend⟩
    · exact .inl hever
    refine .inr ⟨k, hnk, hwait, hend.imp id ?_⟩
    rintro ⟨hk, hcontrol, hstack, _⟩
    refine ⟨f, hk, ?_, ⟨below, hstack⟩, List.mem_cons_self .., runner⟩
    rw [hcontrol, Machine.relay, if_pos runner]
  | @through q kq below leads ih =>
    rcases comes_down (Leads.through leads).mem_runners hu doom hstems hfailed hk₀ with
      hever | ⟨k, hnk, hwait, hend⟩
    · exact .inl hever
    rcases hend with habort | ⟨hk, hcontrol, hstack, hfirst⟩
    · exact .inr ⟨k, hnk, hwait, Or.inl habort⟩
    by_cases hq : q = p
    · subst hq
      refine .inr
        ⟨k, hnk, hwait, Or.inr ⟨.member q, hk, ?_, ⟨_, hstack⟩, List.mem_cons_self .., rfl⟩⟩
      have hrunner : (Frame.member q).runner? = some q := rfl
      rw [hcontrol, Machine.relay, if_pos hrunner]
    have huk := hk.underway hc
    obtain ⟨hfail, hs₁, hprop, hs₂, hdoom, hsame⟩ :=
      member_fails (w := w) (o := o) huk hstack hcontrol
    rw [← run_add] at hfail hs₁ hprop hs₂ hdoom hsame
    have hk₁ : Stems w o c t (k + 1) := .carried hk (by rw [hfail]; rfl)
    have hk₂ : Stems w o c t (k + 2) := .carried hk₁ (by rw [hprop]; rfl)
    have hwait₂ : ∀ j, n ≤ j → j < k + 2 → (run w o j c).Waits p := by
      intro j hnj hj
      have hp := leads.mem_runners
      rcases Nat.lt_or_ge j k with hlt | hge
      · exact hwait j hnj hlt
      · obtain rfl | rfl : j = k ∨ j = k + 1 := by omega
        · refine ⟨by rw [hstack]; exact List.mem_cons_of_mem _ hp, huk, ?_⟩
          simp [resumption?, hcontrol, hstack]
        · exact ⟨by rw [hs₁]; exact hp, hk₁.underway hc, resumption?_of_fail hfail p⟩
    rcases ih (hk₂.underway hc) (by rw [hs₂]; exact .top hdoom) hk₁ hfail
      (Nat.lt_succ_self (k + 1)) with hever | ⟨k', hkk', hwait', hend'⟩
    · refine .inl fun j hnj => ?_
      rcases Nat.lt_or_ge j (k + 2) with hlt | hge
      · exact hwait₂ j hnj hlt
      · exact hever j hge
    have hrelay : (run w o (k + 2) c).machine.relay p below
        (((run w o k c).machine.firstError? kq.members).getD e) =
        (run w o n c).machine.relay p (.member q :: .composite kq :: below) e := by
      have hne : (Frame.member q).runner? ≠ some p := fun h => hq (Option.some.inj h)
      have hnone : (Frame.composite kq).runner? ≠ some p := by simp [Frame.runner?]
      rw [Machine.relay, if_neg hne, Machine.relay, if_neg hnone]
      rw [Machine.relay_congr fun f hf => (hsame f hf).trans (hfirst f (by simp [hf]))]
      have hkq := hfirst (.composite kq) (by simp)
      rw [show kq.members = (Frame.composite kq).wards from rfl, hkq]
      rfl
    rw [hrelay] at hend'
    refine .inr ⟨k', by omega, fun j hnj hjk => ?_, hend'.imp id ?_⟩
    · rcases Nat.lt_or_ge j (k + 2) with hlt | hge
      · exact hwait₂ j hnj hlt
      · exact hwait' j hge hjk
    · rintro ⟨f, hf⟩
      exact ⟨f, { hf with mem := by simp [hf.mem] }⟩

end Waiting

/-! ### A failing child -/

/-- Task `t` fails of `e` under its parent `p`, which has not failed; neither of them has been let
go of. -/
structure FailsUnder (c : Config σ) (t p : Nat) (e : Exn) (up : Task) : Prop where
  control : c.control = .fail t e
  child : ∃ u, c.machine.registry.get? t = some u ∧ u.parent = some p ∧ u.abandoned = false
  owner : c.machine.registry.get? p = some up
  kept : up.abandoned = false
  hale : up.error = none

/-- Task `p` has not finished. -/
def Unfinished (c : Config σ) (p : Nat) : Prop :=
  ∃ v, c.machine.registry.get? p = some v ∧ v.done = false

/-- The run is given up after step `n`, and until then `p` is neither resumed nor finished. A run
that cannot report that it has passed its ceiling may go on for ever instead. -/
inductive GivenUp (w : World σ) (o : RunOptions) (c : Config σ) (p n : Nat) : Prop
  | aborted {k : Nat} {f : Failure} (control : (run w o (n + k) c).control = .abort f)
      (meanwhile : ∀ j < k,
        (run w o (n + j) c).resumption? p = none ∧ (run w o (n + j) c).Unfinished p)
  | endless {k : Nat} (unreported : (run w o (n + k) c).Unreportable o)
      (ever : ∀ j, (run w o (n + j) c).resumption? p = none ∧ (run w o (n + j) c).Unfinished p)

/-- The next time that `p` is resumed after step `n`, `e` is thrown into it on account of `t`. -/
def Thrown (w : World σ) (o : RunOptions) (c : Config σ) (t p n : Nat) (e : Exn) : Prop :=
  ∃ k, NextResumption w o (run w o n c) p k (.throw e) ∧ Stems w o c t (n + k)

/-- After step `n`, `p` fails of `e` on account of `t`, and has not finished until then. -/
def FailsOf (w : World σ) (o : RunOptions) (c : Config σ) (t p n : Nat) (e : Exn) : Prop :=
  ∃ k, (run w o (n + k) c).control = .fail p e ∧ Stems w o c t (n + k) ∧
    ∀ j ≤ k, (run w o (n + j) c).Unfinished p

theorem Waits.unfinished (h : c.Waits p) : c.Unfinished p := by
  obtain ⟨u, hu, _, free⟩ := h.underway.runs h.runs
  exact ⟨u, hu, free.done⟩

/-- The task that fails stays with its parent, and the parent is left alone. -/
theorem FailsUnder.step {up : Task} {e : Exn} (h : c.FailsUnder t p e up) (hc : c.Sound begun)
    (w : World σ) (o : RunOptions) :
    ∃ u' up', (c.step w o).machine.registry.get? t = some u' ∧ u'.parent = some p ∧
      u'.abandoned = false ∧ (c.step w o).machine.registry.get? p = some up' ∧
      up'.abandoned = false ∧
      up.Spared up' := by
  obtain ⟨u, hu, hp, hkept⟩ := h.child
  have hamends := amends_step w o c
  have hgone : ∀ i u u', c.machine.registry.get? i = some u → u.abandoned = false →
      (c.step w o).machine.registry.get? i = some u' → u'.abandoned = false := by
    intro i u u' hu hkept hu'
    cases hab : u'.abandoned with
    | false => rfl
    | true =>
      obtain ⟨_, _, _, hlet⟩ := letGoBy_of_step w o hc hu' hab fun v hv => by
        rw [hu, Option.some.injEq] at hv
        exact hv ▸ hkept
      rcases hlet.control with hnone | ⟨_, _, hprop⟩
      · rw [h.control] at hnone
        cases hnone
      · rw [h.control] at hprop
        cases hprop
  obtain ⟨u', hu', ha⟩ := hamends.kept hu
  obtain ⟨up', hup', hap⟩ := hamends.kept h.owner
  have hne : p ≠ t := Nat.ne_of_lt ((Rehearsal.Sound.forest hc).parent_lt hu hp)
  refine ⟨u', up', hu', ha.parent.trans hp, hgone t u u' hu hkept hu', hup',
    hgone p up up' h.owner h.kept hup', hap.spared ?_⟩
  rintro (hworks | hlarge)
  · simp only [footprint, h.control] at hworks
    exact hne hworks
  · exact Nat.not_le_of_lt (Registry.get?_eq_some_lt h.owner) hlarge

/-- A task that fails is the last ward of the top frame, or nobody waits for anything. -/
theorem Underway.ward_of_fail (hc : c.Underway) {e : Exn} (h : c.control = .fail t e) :
    (∃ f below y, c.stack = f :: below ∧ t ∈ f.wards ∧ Nested none (f :: below) ∧
        Nested (some y) below) ∨
      runners c.stack = [] ∧ ∀ p, c.machine.relay p c.stack e = e := by
  obtain ⟨begun, hs⟩ := hc.sound
  obtain ⟨core, nested⟩ := failing_core hs h
  have hl := hc.lineal.stack
  have hsubject : ∀ x, ward? c.stack = some x → x = t :=
    fun x => hc.lineal.subject t x (by rw [h]; rfl)
  generalize c.machine = m at hl ⊢
  generalize c.stack = stack at hl hsubject nested ⊢
  have hrelay : ∀ f root p, f.wards = [] → m.relay p [f, .loop root] e = e := by
    intro f root p hw
    refine Machine.relay_of_hale (fun g hg => ?_) e
    rcases List.mem_pair.mp hg with rfl | rfl
    · rw [hw]
      rfl
    · rfl
  have hnested := nested
  cases nested with
  | batch rest root => exact Or.inr ⟨rfl, fun p => hrelay _ root p rfl⟩
  | round ids rest root => exact Or.inr ⟨rfl, fun p => hrelay _ root p rfl⟩
  | @forked child y below nested =>
    refine Or.inl ⟨_, below, y, rfl, List.mem_singleton.mpr ?_, hnested, nested⟩
    exact (hsubject child rfl).symm
  | @composite k below nested =>
    refine Or.inl ⟨_, below, _, rfl, ?_, hnested, nested⟩
    have hne : k.members ≠ [] := hl.fits.opened k rfl
    rw [← hsubject (k.members.getLast hne) (List.getLast?_eq_some_getLast hne)]
    exact List.getLast_mem hne

/-- A parent that does not run is told at once. -/
theorem FailsUnder.told {up : Task} {e : Exn} (h : (run w o n c).FailsUnder t p e up)
    (hc : (run w o n c).Underway) (hr : up.running = false) :
    (run w o (n + 1) c).control = .propagate t e ∧
      (run w o (n + 2) c).control =
        if up.coroutine.isSome then .drive p (.throw e) else .fail p e := by
  obtain ⟨begun, hs⟩ := hc.sound
  have hone :=
    run_succ_of_not_isFinal (w := w) (o := o) (c := c) (n := n) (by simp [isFinal, h.control])
  obtain ⟨hp, _⟩ := propagate_of_fail (w := w) (o := o) hs h.control
  rw [← hone] at hp
  refine ⟨hp, ?_⟩
  obtain ⟨u', up', hu', hparent, hkept', hup', hheard', spared⟩ := h.step hs w o
  rw [← hone] at hu' hup'
  have hheeds : (run w o (n + 1) c).machine.registry.Heeds t p u' up' :=
    ⟨hu', hparent, hkept', hup', spared.running.trans hr, spared.error.trans h.hale, hheard'⟩
  have htwo :=
    run_succ_of_not_isFinal (w := w) (o := o) (c := c) (n := n + 1) (by simp [isFinal, hp])
  have hlive : (run w o (n + 1) c).Underway := by
    rw [hone]
    exact hc.step w o fun f hf => by
      rw [← hone, hp] at hf
      cases hf
  obtain ⟨_, hs'⟩ := hlive.sound
  have hturn := turn_step w o hs'
  rw [htwo, ← spared.coroutine]
  generalize (run w o (n + 1) c).step w o = c' at hturn
  generalize run w o (n + 1) c = c₁ at hp hturn hheeds
  obtain ⟨m, stack, control⟩ := c₁
  obtain rfl : control = .propagate t e := hp
  have hu'' : m.registry.get? t = some u' := hheeds.task
  cases hturn with
  | climbs _ _ heeds leads =>
    have htask := heeds.task
    rw [hu'', Option.some.injEq] at htask
    have hpar := heeds.parent
    rw [← htask, hheeds.parent, Option.some.injEq] at hpar
    have howner := heeds.owner
    rw [← hpar, show m.registry.get? p = some up' from hheeds.owner, Option.some.injEq] at howner
    rw [leads, howner, hpar]
  | subsides _ _ task _ _ deaf =>
    rw [hu'', Option.some.injEq] at task
    exact (deaf p up' (task ▸ hheeds)).elim
  | surfaces _ _ task parent _ =>
    rw [hu'', Option.some.injEq] at task
    rw [← task, hheeds.parent] at parent
    cases parent
  | yields resumes _ => cases resumes
  | returns resumes _ => cases resumes
  | escapes resumes _ => cases resumes
  | dies resumes _ => cases resumes

/-- A frame that drives a task drives one with a coroutine, and a placeholder has none. -/
theorem Underway.coroutine_of_frame (hc : c.Underway) {f : Frame} {up : Task} (hf : f ∈ c.stack)
    (hr : f.runner? = some p) (hup : c.machine.registry.get? p = some up) :
    (f = .driving p ∧ up.coroutine.isSome = true) ∨ (f = .member p ∧ up.coroutine = none) := by
  cases f with
  | driving q =>
    obtain rfl : q = p := Option.some.inj hr
    obtain ⟨begun, hs⟩ := hc.sound
    rcases Sound.on_stack hs hc.live with ⟨_, _, core, _⟩ | ⟨root, hstack⟩ | hstack
    · obtain ⟨u, hu, hco⟩ := core.frames _ hf
      rw [hup, Option.some.injEq] at hu
      exact Or.inl ⟨rfl, hu ▸ hco⟩
    · rw [hstack] at hf
      cases List.mem_singleton.mp hf
    · rw [hstack] at hf
      cases hf
  | member q =>
    obtain rfl : q = p := Option.some.inj hr
    obtain ⟨u, hu, hco⟩ := hc.lineal.stack.bare_of_mem hf
    rw [hup, Option.some.injEq] at hu
    exact Or.inr ⟨rfl, hu ▸ hco⟩
  | _ => cases hr

/-- Who waits for ever waits in a run that cannot report its ceiling. -/
theorem endless_of_waits (ever : ∀ j ≥ n, (run w o j c).Waits p) : GivenUp w o c p n := by
  obtain ⟨begun, hs⟩ := (ever n (Nat.le_refl n)).underway.sound
  obtain ⟨k, hk⟩ := exists_isFinal_or_unreportable w o hs
  rw [← run_add] at hk
  rcases hk with hfinal | hr
  · have hruns := (ever (n + k) (Nat.le_add_right ..)).runs
    simp only [isFinal, Bool.and_eq_true, List.isEmpty_iff] at hfinal
    rw [hfinal.1] at hruns
    cases hruns
  · exact .endless hr fun j =>
      ⟨(ever (n + j) (Nat.le_add_right ..)).unresumed,
        (ever (n + j) (Nat.le_add_right ..)).unfinished⟩

/-- From below the frame whose ward has failed an exception is led to the parent of that one. -/
theorem FailsUnder.leads {up : Task} {e : Exn} {f : Frame} {below : List Frame} {y : Nat}
    (h : c.FailsUnder t p e up) (hu : c.Underway) (hstack : c.stack = f :: below)
    (hward : t ∈ f.wards) (hnested : Nested none (f :: below)) (hbelow : Nested (some y) below) :
    Leads p below := by
  obtain ⟨begun, hs⟩ := hu.sound
  obtain ⟨u, hut, hparent, _⟩ := h.child
  obtain ⟨core, _⟩ := failing_core hs h.control
  have hstands := core.frames f (hstack ▸ List.mem_cons_self ..)
  have hl := hu.lineal.stack
  rw [hstack] at hl
  rcases parent_of_ward hstands hnested hl hward hut hparent with ⟨hp, _⟩ | ⟨_, ho⟩
  · obtain ⟨g, under, rfl, rfl | rfl, _⟩ := hp.inv_some
    · exact .here rfl
    · exact .here rfl
  · exact (hbelow.leads_owner ho).1 y rfl

/-- The failure of a task whose parent runs comes up to the parent, unless the run is given up or
never comes to that. -/
theorem FailsUnder.surfaces {up : Task} {e : Exn} (h : (run w o n c).FailsUnder t p e up)
    (hc : c.Underway) (hu : (run w o n c).Underway) (hr : up.running = true) :
    (∀ j ≥ n, (run w o j c).Waits p) ∨
    ∃ k, n < k ∧ (∀ j, n ≤ j → j < k → (run w o j c).Waits p) ∧
      ((∃ f, (run w o k c).control = .abort f) ∨
        ∃ f, Reaches w o c t p (run w o n c).stack k
          ((run w o n c).machine.relay p (run w o n c).stack e) f) := by
  obtain ⟨begun, hs⟩ := hu.sound
  obtain ⟨u, hut, hparent, _⟩ := h.child
  have hne : p ≠ t := Nat.ne_of_lt ((Rehearsal.Sound.forest hs).parent_lt hut hparent)
  obtain ⟨core, _⟩ := failing_core hs h.control
  have hruns : p ∈ runners (run w o n c).stack :=
    (core.running h.owner fun he => hne (Option.some.inj he).symm).mp hr
  rcases hu.ward_of_fail h.control with ⟨f, below, y, hstack, hward, hnested, hbelow⟩ | ⟨hnone, _⟩
  case inr =>
    rw [hnone] at hruns
    cases hruns
  have htop : f ∈ (run w o n c).stack := by
    rw [hstack]
    exact List.mem_cons_self ..
  have hleads := h.leads hu hstack hward hnested hbelow
  have hone :=
    run_succ_of_not_isFinal (w := w) (o := o) (c := c) (n := n) (by simp [isFinal, h.control])
  obtain ⟨hp, hs'⟩ := propagate_of_fail (w := w) (o := o) hs h.control
  rw [← hone] at hp hs'
  have hstems : Stems w o c t n := .fails h.control
  have hu' : (run w o (n + 1) c).Underway :=
    (Stems.carried hstems (by rw [hp]; rfl)).underway hc
  obtain ⟨u', _, hut', hparent', _⟩ := h.step hs w o
  have hdoom : (run w o (n + 1) c).machine.Dooms t
      (((run w o n c).machine.firstError? f.wards).getD e) f := by
    refine ⟨hward, ?_, fun child hchild => ⟨u', ?_, ?_⟩⟩
    · rw [hone]
      exact first_of_fail w o hu h.control htop hward
    · subst hchild
      rw [hone, ← List.mem_singleton.mp hward]
      exact hut'
    · rw [← hone] at hut'
      cases hd : u'.detached with
      | false => rfl
      | true =>
        rw [hu'.orphans t u' hut' hd] at hparent'
        cases hparent'
  have hwait₀ : (run w o n c).Waits p := ⟨hruns, hu, resumption?_of_fail h.control p⟩
  rcases Config.surfaces hc hleads hu' (by rw [hs', hstack]; exact .top hdoom) hstems h.control
    (Nat.lt_succ_self n) with hever | ⟨k, hnk, hwait, hend⟩
  · refine .inl fun j hnj => ?_
    rcases Nat.lt_or_eq_of_le hnj with hlt | rfl
    · exact hever j hlt
    · exact hwait₀
  refine .inr ⟨k, hnk, fun j hnj hjk => ?_, hend.imp id ?_⟩
  · rcases Nat.lt_or_eq_of_le hnj with hlt | rfl
    · exact hwait j hlt hjk
    · exact hwait₀
  · rintro ⟨f', hf'⟩
    refine ⟨f', { hf' with mem := hstack ▸ List.mem_cons_of_mem _ hf'.mem, control := ?_ }⟩
    have hrunner : f.runner? ≠ some p := by
      cases f with
      | driving _ => cases hward
      | member _ => cases hward
      | _ => simp [Frame.runner?]
    have hsame : ∀ g ∈ below, (run w o (n + 1) c).machine.firstError? g.wards =
        (run w o n c).machine.firstError? g.wards := fun g hg => by
      rw [hone]
      exact first_below_step w o hu hstack hg
    rw [hf'.control, hstack, Machine.relay, if_neg hrunner, Machine.relay_congr hsame]

/-- What reaches a parent that does not run is the exception itself. -/
theorem FailsUnder.relay_eq {up : Task} {e : Exn} (h : c.FailsUnder t p e up) (hc : c.Underway)
    (hr : up.running = false) : c.machine.relay p c.stack e = e := by
  rcases hc.ward_of_fail h.control with ⟨f, below, y, hstack, hward, _⟩ | ⟨_, hrelay⟩
  · obtain ⟨u, hu, hp, _⟩ := h.child
    have htended : Tended t below c.stack := by
      rw [hstack]
      exact .top hward
    obtain ⟨_, v, hv, hrun, _⟩ := hc.parent_runs htended hu hp
    rw [h.owner, Option.some.injEq] at hv
    rw [← hv, hr] at hrun
    cases hrun
  · exact hrelay p

/-- A task that fails has not finished before. -/
theorem failsOf_of_fail (hc : c.Sound begun) {up : Task} {e : Exn} {k : Nat}
    (hup : (run w o n c).machine.registry.get? p = some up)
    (hf : (run w o (n + k) c).control = .fail p e)
    (hs : Stems w o c t (n + k)) : FailsOf w o c t p n e := by
  refine ⟨k, hf, hs, fun j hj => ?_⟩
  obtain ⟨_, _, hsn⟩ := sound_run w o hc (n + k)
  obtain ⟨v, hv, free, _⟩ := failing_task hsn hf
  obtain ⟨u, hu, _⟩ := onward_run w o hup j
  rw [← run_add] at hu
  refine ⟨u, hu, ?_⟩
  obtain ⟨i, rfl⟩ := Nat.exists_eq_add_of_le hj
  obtain ⟨v', hv', onward⟩ := onward_run w o hu i
  rw [← run_add, Nat.add_assoc, hv, Option.some.injEq] at hv'
  cases hd : u.done with
  | false => rfl
  | true => exact (Bool.false_ne_true (free.done.symm.trans (hv' ▸ onward.done hd))).elim

/-- Into a parent with a coroutine the failure is thrown. -/
theorem FailsUnder.thrown {up : Task} {e : Exn} (h : (run w o n c).FailsUnder t p e up)
    (hc : c.Underway) (hu : (run w o n c).Underway) (hco : up.coroutine.isSome = true) :
    Thrown w o c t p n ((run w o n c).machine.relay p (run w o n c).stack e) ∨
    GivenUp w o c p n := by
  have hadd : ∀ j, run w o j (run w o n c) = run w o (n + j) c := fun j => (run_add w o n j c).symm
  cases hr : up.running with
  | false =>
    obtain ⟨hprop, hdrive⟩ := h.told hu hr
    rw [hco, if_pos rfl] at hdrive
    rw [h.relay_eq hu hr]
    have hstems : Stems w o c t (n + 2) :=
      .carried (e := e) (.carried (e := e) (.fails h.control) (by rw [hprop]; rfl))
        (by rw [hdrive]; rfl)
    refine Or.inl ⟨2, ⟨?_, fun j hj => ?_⟩, hstems⟩
    · rw [hadd]
      simp [resumption?, hdrive]
    · rw [hadd]
      obtain rfl | rfl : j = 0 ∨ j = 1 := by omega
      · exact resumption?_of_fail h.control p
      · simp [resumption?, hprop]
  | true =>
    rcases h.surfaces hc hu hr with hever | ⟨k, hnk, hwait, hend⟩
    · exact Or.inr (endless_of_waits hever)
    obtain ⟨i, rfl⟩ := Nat.exists_eq_add_of_le (Nat.le_of_lt hnk)
    have hmeanwhile : ∀ j < i, (run w o (n + j) c).Waits p :=
      fun j hj => hwait (n + j) (by omega) (by omega)
    rcases hend with ⟨f, hf⟩ | ⟨f, hf⟩
    · exact Or.inr
        (.aborted hf fun j hj => ⟨(hmeanwhile j hj).unresumed, (hmeanwhile j hj).unfinished⟩)
    · rcases hu.coroutine_of_frame hf.mem hf.runner h.owner with ⟨rfl, _⟩ | ⟨_, hnone⟩
      · refine Or.inl ⟨i, ⟨?_, fun j hj => ?_⟩, hf.stems⟩
        · obtain ⟨under, hstack⟩ := hf.stack
          rw [hadd]
          simp [resumption?, hf.control, hstack]
        · rw [hadd]
          exact (hmeanwhile j hj).unresumed
      · rw [hnone] at hco
        cases hco

/-- A parent without a coroutine fails of the failure. -/
theorem FailsUnder.fails {up : Task} {e : Exn} (h : (run w o n c).FailsUnder t p e up)
    (hc : c.Underway) (hu : (run w o n c).Underway) (hco : up.coroutine = none) :
    FailsOf w o c t p n ((run w o n c).machine.relay p (run w o n c).stack e) ∨
    GivenUp w o c p n := by
  obtain ⟨begun, hs⟩ := hc.sound
  cases hr : up.running with
  | false =>
    obtain ⟨hprop, hfail⟩ := h.told hu hr
    rw [hco] at hfail
    have hfail' : (run w o (n + 2) c).control = .fail p e := hfail
    have hstems : Stems w o c t (n + 2) :=
      .carried (e := e) (.carried (e := e) (.fails h.control) (by rw [hprop]; rfl))
        (by rw [hfail']; rfl)
    rw [h.relay_eq hu hr]
    exact Or.inl (failsOf_of_fail hs h.owner hfail' hstems)
  | true =>
    rcases h.surfaces hc hu hr with hever | ⟨k, hnk, hwait, hend⟩
    · exact Or.inr (endless_of_waits hever)
    obtain ⟨i, rfl⟩ := Nat.exists_eq_add_of_le (Nat.le_of_lt hnk)
    have hmeanwhile : ∀ j < i, (run w o (n + j) c).Waits p :=
      fun j hj => hwait (n + j) (by omega) (by omega)
    rcases hend with ⟨f, hf⟩ | ⟨f, hf⟩
    · exact Or.inr
        (.aborted hf fun j hj => ⟨(hmeanwhile j hj).unresumed, (hmeanwhile j hj).unfinished⟩)
    · rcases hu.coroutine_of_frame hf.mem hf.runner h.owner with ⟨_, hsome⟩ | ⟨rfl, _⟩
      · rw [hco] at hsome
        cases hsome
      · obtain ⟨under, hstack⟩ := hf.stack
        have hstep := run_succ_of_not_isFinal (w := w) (o := o) (c := c) (n := n + i)
          (by rw [isFinal, hstack]; rfl)
        have hfail : (run w o (n + i + 1) c).control =
            .fail p ((run w o n c).machine.relay p (run w o n c).stack e) := by
          rw [hstep]
          simp only [Config.step, hf.control, hstack, catchException]
        have hstems : Stems w o c t (n + i + 1) := .carried hf.stems (by rw [hfail]; rfl)
        exact Or.inl (failsOf_of_fail (k := i + 1) hs h.owner hfail hstems)

end Config

/-- **No failure of attached work is lost, or delivered twice.** When a task fails under a parent
that has not failed, and neither of the two has been let go of: if the parent has a coroutine, the
next time that it is resumed the failure is thrown into it, and into no task is it ever thrown
twice; if it has none, the parent fails. What arrives is the exception of the task, unless an
earlier member of a composite on the way has failed: then it is the failure of the first member.
Only giving up the run keeps the parent from it, and the parent then neither goes on nor finishes.
-/
theorem failure_surfaces (w : World σ) (o : RunOptions) (outer : σ) (name : String) (g n : Nat)
    {t p : Nat} {e : Exn} {up : Task}
    (h : (Config.run w o n (Config.launched outer name g)).FailsUnder t p e up) :
    let c := Config.launched outer name g
    let arriving := (Config.run w o n c).machine.relay p (Config.run w o n c).stack e
    (up.coroutine.isSome = true → Config.Thrown w o c t p n arriving ∨ Config.GivenUp w o c p n) ∧
    (up.coroutine = none → Config.FailsOf w o c t p n arriving ∨ Config.GivenUp w o c p n) ∧
    ∀ q k m e₁ e₂, Config.Stems w o c t k → (Config.run w o k c).resumption? q = some (.throw e₁) →
      Config.Stems w o c t m → (Config.run w o m c).resumption? q = some (.throw e₂) → k = m := by
  have hc := Config.underway_launched outer name g
  have hu : (Config.run w o n (Config.launched outer name g)).Underway :=
      hc.run w o n fun f hf => by
    rw [h.control] at hf
    cases hf
  exact ⟨h.thrown hc hu, h.fails hc hu,
    fun q k m e₁ e₂ hk hr hm hr' => Config.thrown_once hc hk hr hm hr'⟩

/-- The root gathers two calls, both of which fail at once. -/
def Playbook.doomed : Playbook where
  responses g := if g = 0 then
    [.yielded
      (.effect (.gather (.listed [.effect (.call .null [] []), .effect (.call .null [] [])])))]
    else []
  plans := [{ CallPlan.real with error := some ⟨.value, [], .scheduler 0⟩ },
    { CallPlan.real with error := some ⟨.runtime, [], .scheduler 0⟩ }]

theorem first_failure_surfaces :
    ∃ e e₁ up, (Playbook.doomed.played 9).FailsUnder 2 0 e up ∧ e.kind = .runtime ∧
      e₁.kind = .value ∧
      (Config.Thrown Playbook.world .default (Config.launched Playbook.doomed "root" 0) 2 0 9 e₁ ∨
        Config.GivenUp Playbook.world .default (Config.launched Playbook.doomed "root" 0) 0 9) ∧
      (Playbook.doomed.played 12).resumption? 0 = some (.throw e₁) := by
  have h : ∃ e up, (Playbook.doomed.played 9).FailsUnder 2 0 e up ∧ up.coroutine.isSome = true ∧
      e.kind = .runtime := ⟨_, _, ⟨rfl, ⟨_, rfl, rfl, rfl⟩, rfl, rfl, rfl⟩, rfl, rfl⟩
  obtain ⟨e, up, hfails, hco, hkind⟩ := h
  have hsurfaces :=
    (failure_surfaces Playbook.world .default Playbook.doomed "root" 0 9 hfails).1 hco
  have hcontrol := hfails.control
  cases hcontrol
  exact ⟨_, _, up, hfails, hkind, rfl, hsurfaces, rfl⟩
end Rehearsal
