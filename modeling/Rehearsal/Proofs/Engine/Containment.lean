import Rehearsal.Proofs.Engine.GivingUp
import Rehearsal.Proofs.Engine.Stems

/-!
# Failures stay inside their boundary

What stems from the failure of a task is thrown into its ancestors only, nearest first, and climbs
past nobody who has been let go of or is detached. Whoever is blamed for a failure that ends the run
is the root or a detached task, and every exception thrown into a task is that of a failed task,
unless the task's own effect has raised it.
-/
namespace Rehearsal

variable {σ : Type} {begun : Nat → Prop}

namespace Registry

def Encloses (r : Registry) (a t : Nat) : Prop := a = t ∨ r.Descends a t

namespace Descends

variable {r : Registry} {a b d p : Nat} {u : Task}

theorem above (h : r.Descends a d) (task : r.get? a = some u) (parent : u.parent = some p) :
    r.Descends p d := by
  induction h with
  | child task' parent' => exact .deeper task' parent' (.child task parent)
  | deeper task' parent' _ ih => exact .deeper task' parent' ih

/-- What is above a task is its parent or above that. -/
theorem parent (h : r.Descends a d) (task : r.get? d = some u) :
    ∃ p, u.parent = some p ∧ r.Encloses a p := by
  cases h with
  | child task' parent' =>
    rw [task, Option.some.injEq] at task'
    exact ⟨a, task' ▸ parent', Or.inl rfl⟩
  | @deeper _ p _ task' parent' h =>
    rw [task, Option.some.injEq] at task'
    exact ⟨p, task' ▸ parent', Or.inr h⟩

theorem lt (forest : r.Forest) (h : r.Descends a d) : a < d := by
  induction h with
  | child task parent => exact forest.parent_lt task parent
  | deeper task parent _ ih => exact Nat.lt_trans ih (forest.parent_lt task parent)

/-- Of two tasks above a third one is above the other. -/
theorem total (h : r.Descends a d) (h' : r.Encloses b d) :
    a = b ∨ r.Descends a b ∨ r.Descends b a := by
  induction h with
  | child task parent =>
    rcases h' with rfl | h'
    · exact Or.inr (Or.inl (.child task parent))
    · obtain ⟨p, hp, he⟩ := h'.parent task
      rw [parent, Option.some.injEq] at hp
      subst hp
      exact he.imp Eq.symm Or.inr
  | deeper task parent h ih =>
    rcases h' with rfl | h'
    · exact Or.inr (Or.inl (.deeper task parent h))
    · obtain ⟨p, hp, he⟩ := h'.parent task
      rw [parent, Option.some.injEq] at hp
      subst hp
      exact ih he

end Descends

/-- A task on the chain from `t` up to `u`, which is left out, that an exception may climb past. -/
structure Clear (r : Registry) (passed : Nat → Prop) (a : Nat) (v : Task) : Prop where
  task : r.get? a = some v
  kept : v.abandoned = false
  attached : v.detached = false
  past : passed a

theorem Clear.unbound {r : Registry} {passed : Nat → Prop} {a : Nat} {u v : Task}
    (h : r.Clear passed a v) (hu : r.get? a = some u) : u.abandoned = false ∧
    u.detached = false := by
  obtain rfl : v = u := Option.some.inj (h.task.symm.trans hu)
  exact ⟨h.kept, h.attached⟩

namespace Climb

variable {r : Registry} {passed : Nat → Prop} {t u a : Nat}

theorem encloses (h : r.Climb passed t u) : r.Encloses u t := by
  induction h with
  | here => exact Or.inl rfl
  | up _ task parent _ _ _ ih =>
    rcases ih with rfl | ih
    · exact Or.inr (.child task parent)
    · exact Or.inr (ih.above task parent)

/-- Every task on the way has been climbed past. -/
theorem clear (forest : r.Forest) (h : r.Climb passed t u) (hat : r.Encloses a t)
    (hua : r.Descends u a) : ∃ v, r.Clear passed a v := by
  induction h with
  | here =>
    exfalso
    rcases hat with rfl | hat
    · exact Nat.lt_irrefl a (hua.lt forest)
    · exact Nat.lt_asymm (hua.lt forest) (hat.lt forest)
  | @up x p v h task parent kept attached past ih =>
    -- the chain is a line: `a` is the last task climbed past, or lies below it
    have hax : a = x ∨ r.Descends x a ∨ r.Descends a x := by
      rcases hat with rfl | hat
      · exact h.encloses.imp Eq.symm Or.inl
      · rcases hat.total h.encloses with he | hax | hxa
        · exact Or.inl he
        · exact Or.inr (Or.inr hax)
        · exact Or.inr (Or.inl hxa)
    rcases hax with rfl | hxa | hax
    · exact ⟨v, task, kept, attached, past⟩
    · exact ih hxa
    · obtain ⟨q, hq, he⟩ := hax.parent task
      rw [parent, Option.some.injEq] at hq
      subst hq
      exfalso
      rcases he with rfl | hap
      · exact Nat.lt_irrefl a (hua.lt forest)
      · exact Nat.lt_asymm (hua.lt forest) (hap.lt forest)

end Climb

end Registry

namespace Config

variable {w : World σ} {o : RunOptions} {c : Config σ} {t n : Nat}

/-- A task that is resumed has not failed. -/
theorem hale_of_resumption (hc : c.Sound begun) {u : Nat} {s : Signal}
    (h : c.resumption? u = some s) :
    ∃ v, c.machine.registry.get? u = some v ∧ v.error = none := by
  obtain ⟨v, hv, free⟩ := free_of_resumption hc h
  exact ⟨v, hv, free.error⟩

/-- Nobody is resumed while a task fails. -/
theorem resumption?_of_fail {a : Nat} {e : Exn} (h : c.control = .fail a e) (u : Nat) :
    c.resumption? u = none := by simp [resumption?, h]

/-- Nobody who has not failed has been climbed past. -/
theorem not_passed_of_hale (hc : c.Underway) {p : Nat} {v : Task}
    (hv : (run w o n c).machine.registry.get? p = some v) (hale : v.error = none) :
    ¬ Passed w o c t n p := by
  rintro ⟨k, hk, e, _, hf, _⟩
  obtain ⟨begun, hs⟩ := hc.sound
  exact Nat.not_le_of_lt hk (le_of_hale w o hs hf hv hale)

/-- What stems from a failure comes after it. -/
theorem Stems.origin (h : Stems w o c t n) : ∃ k ≤ n, ∃ e, (run w o k c).control = .fail t e := by
  induction h with
  | fails control => exact ⟨_, Nat.le_refl _, _, control⟩
  | carried _ _ ih =>
    obtain ⟨k, hk, hf⟩ := ih
    exact ⟨k, Nat.le_succ_of_le hk, hf⟩
  | raisedAgain _ _ later _ _ _ _ ih =>
    obtain ⟨k, hk, hf⟩ := ih
    exact ⟨k, Nat.le_succ_of_le (Nat.le_trans hk (Nat.le_of_lt later)), hf⟩

/-- A failure is thrown into a task that its exception has climbed to. -/
theorem Stems.climb_of_throw (hc : c.Underway) (h : Stems w o c t n) {u : Nat} {e : Exn}
    (hr : (run w o n c).resumption? u = some (.throw e)) :
    (run w o n c).machine.registry.Climb (Passed w o c t n) t u ∧ u ≠ t := by
  obtain ⟨a, hb, borne⟩ := h.borne hc
  obtain ⟨below, hres⟩ := resumption?_eq_some.mp hr
  have ha := bearer_of_resumes (run w o n c).machine hres
  rw [show (⟨_, _, _⟩ : Config σ) = run w o n c from rfl, hb, Option.some.injEq] at ha
  subst ha
  obtain ⟨begun, hs⟩ := hc.sound
  cases borne with
  | aside _ _ still _ _ =>
    rw [still] at hr
    cases hr
  | straight climb =>
    refine ⟨climb, ?_⟩
    rintro rfl
    obtain ⟨k, hk, e', hf⟩ := h.origin
    obtain ⟨begun', _, hs'⟩ := sound_run w o hs n
    obtain ⟨v, hv, hale⟩ := hale_of_resumption hs' hr
    obtain rfl := Nat.le_antisymm hk (le_of_hale w o hs hf hv hale)
    rw [resumption?_of_fail hf] at hr
    cases hr

def Blames (c : Config σ) :
    Prop := ∃ e id name s, c.control = .abort (.harness (.testedCode e id name s))

/-- Who is blamed for a failure is a task that its exception has climbed to, and has no parent. -/
theorem Stems.climb_of_blames (hw : w.Candid) (hc : c.Underway) (h : Stems w o c t n)
    (hb : (run w o (n + 1) c).Blames) :
    ∃ d u, (run w o n c).machine.registry.Climb (Passed w o c t n) t d ∧
      (run w o n c).machine.registry.get? d = some u ∧ u.parent = none ∧
      (u.detached && o.swallowSpawnErrors) = false := by
  obtain ⟨e, id, name, s, hb⟩ := hb
  have hu := h.underway hc
  obtain ⟨e', he⟩ := h.exn
  rw [run_succ_of_not_isFinal (hu.not_isFinal he)] at hb
  obtain ⟨d, u, hcontrol, hd, hp, hs, _⟩ := (grounds_of_step w o hu.live hb).testedCode_inv hw
  obtain ⟨a, hbearer, borne⟩ := h.borne hc
  simp only [bearer?, hcontrol, Option.some.injEq] at hbearer
  subst hbearer
  cases borne with
  | straight climb => exact ⟨d, u, climb, hd, hp, hs⟩
  | aside _ _ _ task parent =>
    rw [show (run w o n c).machine.registry.get? d = some u from hd, Option.some.injEq] at task
    rw [← task, hp] at parent
    cases parent

/-! ### Where exceptions come from -/

end Config

variable {o : RunOptions} {c c' : Config σ}

/-- An exception that a task is driven with has been told to it. -/
theorem Turn.thrown_inv {t : Nat} {e : Exn} (turn : Turn o c c')
    (h : c'.control = .drive t (.throw e)) :
    ∃ d, c.control = .propagate d e := by
  have hfailure : ∀ f : Failure, f.control ≠ .drive t (.throw e) := fun f hf => by
    have hnone := f.subject?_control
    rw [hf] at hnone
    cases hnone
  cases turn with
  | climbs _ _ _ leads =>
    rw [leads] at h
    split at h <;> cases h
    exact ⟨_, rfl⟩
  | refuses _ _ _ _ f => exact (hfailure f h).elim
  | condemns _ _ _ => exact (hfailure (.exn _) h).elim
  | rethrows _ _ _ _ => exact (hfailure (.exn _) h).elim
  | runs _ _ leads => rcases leads with rfl | ⟨_, rfl⟩ | ⟨_, rfl⟩ | rfl <;> cases h
  | starts _ _ leads => rcases leads with rfl | rfl | ⟨_, _, rfl⟩ | ⟨_, rfl⟩ <;> cases h
  | picks _ _ _ leads => rcases leads with rfl | rfl <;> cases h
  | _ => cases h

theorem Failure.control_eq_raised {e e' : Exn} (h : (Failure.exn e).control = .raised e') :
    e = e' := by
  unfold control at h
  dsimp only at h
  split at h <;> cases h
  rfl

/-- An exception is raised by the interpretation of an effect, or again by a frame one of whose
wards has failed of it. -/
theorem Turn.raised_cases {e : Exn} (turn : Turn o c c') (h : c'.control = .raised e) :
    (∃ t effect b, c.control = .interpret t effect b ∧ c'.stack = c.stack) ∨
      ∃ f below a u, c.control = .done ∧ c.stack = f :: below ∧ a ∈ f.wards ∧
        c.machine.registry.get? a = some u ∧ u.error = some e := by
  cases turn with
  | refuses _ t effect b _ => exact Or.inl ⟨t, effect, b, rfl, rfl⟩
  | condemns below rest first =>
    obtain rfl := Failure.control_eq_raised h
    obtain ⟨a, ha, u, hu, he⟩ := Machine.firstError?_eq_some first
    exact Or.inr ⟨_, _, a, u, rfl, rfl, ha, hu, he⟩
  | rethrows below task error attached =>
    obtain rfl := Failure.control_eq_raised h
    exact Or.inr ⟨_, _, _, _, rfl, rfl, List.mem_singleton.mpr rfl, task, error⟩
  | runs _ _ leads => rcases leads with rfl | ⟨_, rfl⟩ | ⟨_, rfl⟩ | rfl <;> cases h
  | starts _ _ leads => rcases leads with rfl | rfl | ⟨_, _, rfl⟩ | ⟨_, rfl⟩ <;> cases h
  | climbs _ _ _ leads =>
    rw [leads] at h
    split at h <;> cases h
  | picks _ _ _ leads => rcases leads with rfl | rfl <;> cases h
  | _ => cases h

namespace Config

variable {w : World σ} {o : RunOptions} {c : Config σ} {t n : Nat}

/-- What is not final has come about by a step. -/
theorem turn_of_not_isFinal (hc : c.Sound begun) (h : (run w o (n + 1) c).isFinal = false) :
    Turn o (run w o n c) (run w o (n + 1) c) := by
  obtain ⟨_, _, hs⟩ := sound_run w o hc n
  cases hf : (run w o n c).isFinal with
  | true =>
    rw [run_succ, hf, if_pos rfl, hf] at h
    cases h
  | false =>
    rw [run_succ_of_not_isFinal hf]
    exact turn_step w o hs

theorem not_isFinal_of_resumption {u : Nat} {s : Signal} (h : c.resumption? u = some s) :
    c.isFinal = false := by
  obtain ⟨below, hr⟩ := resumption?_eq_some.mp h
  obtain ⟨m, stack, control⟩ := c
  cases hr <;> simp [isFinal]

/-- The exception `e` is that of task `a`, which failed before step `n`, and stems from whatever
that failure stems from. -/
def TracedTo (w : World σ) (o : RunOptions) (c : Config σ) (n a : Nat) (e : Exn) : Prop :=
  ∃ k < n, (run w o k c).control = .fail a e ∧ ∀ t, Stems w o c t k → Stems w o c t n

/-- A failure that is propagated has happened one step before. -/
theorem failed_before {e : Exn} (hc : c.Sound begun) (calm : c.control.exn? = none)
    (h : (run w o n c).control = .propagate t e) :
    ∃ m, n = m + 1 ∧ (run w o m c).control = .fail t e := by
  cases n with
  | zero =>
    rw [show c.control = .propagate t e from h] at calm
    cases calm
  | succ m =>
    have hnfin : (run w o (m + 1) c).isFinal = false := by simp [isFinal, h]
    exact ⟨m, rfl, (turn_of_not_isFinal hc hnfin).propagate_inv h⟩

/-- An exception thrown into a task was raised by its own effect, or is that of a failed task. -/
theorem traced_of_throw (hc : c.Sound begun) (calm : c.control.exn? = none)
    (hale : ∀ i u, c.machine.registry.get? i = some u → u.error = none) {u : Nat} {e : Exn}
    (h : (run w o n c).resumption? u = some (.throw e)) :
    (∃ k effect b, n = k + 1 ∧ (run w o k c).control = .interpret u effect b) ∨
      ∃ a, TracedTo w o c n a e := by
  obtain ⟨below, hr⟩ := resumption?_eq_some.mp h
  cases n with
  | zero =>
    rw [show c.control.exn? = some e from hr.throws] at calm
    cases calm
  | succ m =>
    have hturn := turn_of_not_isFinal hc (not_isFinal_of_resumption h)
    generalize hctl : (run w o (m + 1) c).control = control at hr
    generalize hstk : (run w o (m + 1) c).stack = stack at hr
    cases hr with
    | driven _ _ _ =>
      obtain ⟨d, hd⟩ := hturn.thrown_inv hctl
      obtain ⟨k, rfl, hf⟩ := failed_before hc calm hd
      refine Or.inr ⟨d, k, by omega, hf, fun t hs => ?_⟩
      exact .carried (.carried hs (by rw [hd]; rfl)) (by rw [hctl]; rfl)
    | thrown _ _ _ =>
      rcases hturn.raised_cases hctl with ⟨t, effect, b, hi, hst⟩ | ⟨f, under, a, v,
        hdone, hst, hward, hv, he⟩
      · refine Or.inl ⟨m, effect, b, rfl, ?_⟩
        obtain ⟨_, _, hs⟩ := sound_run w o hc m
        rw [Config.Sound, hi, ← hst, hstk] at hs
        cases hs with
        | interpreting _ _ core nested =>
          cases nested
          exact hi
      · rcases failed_run w o m hv he with ⟨v₀, hv₀, he₀⟩ | ⟨k, hk, hf⟩
        · rw [hale a v₀ hv₀] at he₀
          cases he₀
        · exact Or.inr ⟨a, k, Nat.lt_succ_of_lt hk, hf, fun t hs =>
            .raisedAgain hs hf hk hdone hst hward hctl⟩

/-! ### Who is blamed -/

/-- Task `d` fails of `e`, and nobody answers for it: it is the root, or a detached task whose
failures are not swallowed. -/
def Unanswered (o : RunOptions) (c : Config σ) (d : Nat) (e : Exn) : Prop :=
  c.control = .fail d e ∧ ∃ u, c.machine.registry.get? d = some u ∧
    (d = 0 ∨ (u.detached = true ∧ o.swallowSpawnErrors = false))

/-- A failure is propagated next. -/
theorem propagate_of_fail (hc : c.Sound begun) {d : Nat} {e : Exn} (h : c.control = .fail d e) :
    (c.step w o).control = .propagate d e ∧ (c.step w o).stack = c.stack := by
  have hturn : Turn o c (c.step w o) := turn_step w o hc
  generalize c.step w o = c' at hturn
  obtain ⟨m, stack, control⟩ := c
  obtain rfl : control = .fail d e := h
  cases hturn with
  | fails _ _ _ => exact ⟨rfl, rfl⟩
  | yields resumes _ => cases resumes
  | returns resumes _ => cases resumes
  | escapes resumes _ => cases resumes
  | dies resumes _ => cases resumes

/-- A failure that nobody answers for gives up the run. -/
theorem blames_of_propagate (hc : c.Sound begun) {d : Nat} {u : Task} {e : Exn}
    (h : c.control = .propagate d e) (hu : c.machine.registry.get? d = some u)
    (hp : u.parent = none)
    (hs : (u.detached && o.swallowSpawnErrors) = false) :
    ∃ name s, (c.step w o).control = .abort (.harness (.testedCode e (some d) name s)) := by
  have hturn : Turn o c (c.step w o) := turn_step w o hc
  have hid := Registry.Forest.id_eq (Rehearsal.Sound.forest hc) hu
  generalize c.step w o = c' at hturn
  obtain ⟨m, stack, control⟩ := c
  obtain rfl : control = .propagate d e := h
  have heq : ∀ {v}, m.registry.get? d = some v → v = u := fun hv => by
    rw [show m.registry.get? d = some u from hu, Option.some.injEq] at hv
    exact hv.symm
  cases hturn with
  | surfaces _ _ task _ _ =>
    obtain rfl := heq task
    exact ⟨_, _, by rw [hid]⟩
  | subsides _ _ task _ swallowed _ =>
    obtain rfl := heq task
    rw [swallowed hp] at hs
    cases hs
  | climbs _ _ heeds _ =>
    obtain rfl := heq heeds.task
    rw [heeds.parent] at hp
    cases hp
  | yields resumes _ => cases resumes
  | returns resumes _ => cases resumes
  | escapes resumes _ => cases resumes
  | dies resumes _ => cases resumes

/-- A failure that nobody answers for gives up the run. -/
theorem blames_of_unanswered (hc : c.Regular) {d : Nat} {e : Exn}
    (h : (run w o n c).Unanswered o d e) :
    ∃ name s, (run w o (n + 2) c).control = .abort (.harness (.testedCode e (some d) name s)) := by
  obtain ⟨hf, u, hu, hd⟩ := h
  obtain ⟨_, hsn⟩ := (hc.run w o n).sound
  have hregular := hc.run w o (n + 1)
  obtain ⟨_, hsn'⟩ := hregular.sound
  have hp : (run w o (n + 1) c).control = .propagate d e := by
    rw [run_succ_of_not_isFinal (by simp [isFinal, hf])]
    exact (propagate_of_fail hsn hf).1
  have hnext : ∃ u', (run w o (n + 1) c).machine.registry.get? d = some u' ∧
      u'.detached = u.detached := by
    rw [run_succ_of_not_isFinal (by simp [isFinal, hf])]
    obtain ⟨u', hu', ha⟩ := (amends_step w o (run w o n c)).kept hu
    exact ⟨u', hu', ha.detached⟩
  obtain ⟨u', hu', hdet⟩ := hnext
  rw [run_succ_of_not_isFinal (n := n + 1) (by simp [isFinal, hp])]
  rcases hd with rfl | ⟨hdetached, hswallow⟩
  · obtain ⟨v, hv, hroot⟩ := hregular.root
    rw [hu', Option.some.injEq] at hv
    subst hv
    refine blames_of_propagate hsn' hp hu' ?_ (by rw [hroot]; rfl)
    cases hparent : u'.parent with
    | none => rfl
    | some p =>
      exact (Nat.not_lt_zero p ((Rehearsal.Sound.forest hsn').parent_lt hu' hparent)).elim
  · refine blames_of_propagate hsn' hp hu' (hregular.orphans d u' hu' (hdet.trans hdetached)) ?_
    rw [hswallow, Bool.and_false]

/-- Tested code is blamed for a failure that nobody answers for. -/
theorem unanswered_of_blames (hw : w.Candid) (hc : c.Regular) (calm : c.control.exn? = none)
    (live : ∀ f, c.control ≠ .abort f) {e : Exn} {id : Option Nat} {name : Option String}
    {s : Option Nat} (h : (run w o n c).control = .abort (.harness (.testedCode e id name s))) :
    ∃ k d, k + 2 ≤ n ∧ id = some d ∧ (run w o k c).Unanswered o d e := by
  induction n with
  | zero => exact (live _ h).elim
  | succ n ih =>
    by_cases hgoing : ∀ f, (run w o n c).control ≠ .abort f
    case neg =>
      simp only [not_forall, not_not] at hgoing
      obtain ⟨f, hf⟩ := hgoing
      have hkeep := run_abort w o hf 1
      rw [← run_add, h, Control.abort.injEq] at hkeep
      obtain ⟨k, d, hk, hd⟩ := ih (hkeep ▸ hf)
      exact ⟨k, d, Nat.le_succ_of_le hk, hd⟩
    case pos =>
      rw [run_succ] at h
      split at h
      · exact (hgoing _ h).elim
      obtain ⟨d, u, hcontrol, hu, hp, hs, rfl, _⟩ :=
        (grounds_of_step w o hgoing h).testedCode_inv hw
      obtain ⟨begun, hsound⟩ := hc.sound
      obtain ⟨m, rfl, hf⟩ := failed_before hsound calm hcontrol
      obtain ⟨_, _, hsn⟩ := sound_run w o hsound m
      obtain ⟨_, hsn'⟩ := (hc.run w o (m + 1)).sound
      have forest := Rehearsal.Sound.forest hsn'
      obtain ⟨v, hv, _⟩ := failing_task hsn hf
      have hdet : v.detached = u.detached := by
        obtain ⟨v', hv', ha⟩ := (amends_step w o (run w o m c)).kept hv
        rw [run_succ_of_not_isFinal (by simp [isFinal, hf])] at hu
        rw [show Registry.get? _ d = some u from hu, Option.some.injEq] at hv'
        exact hv' ▸ ha.detached.symm
      refine ⟨m, d, Nat.le_refl _, by rw [forest.id_eq hu], hf, v, hv, ?_⟩
      rcases (forest.wellFormed hu).root_or_detached hp with rfl | hd
      · exact Or.inl rfl
      · rw [hd] at hs
        exact Or.inr ⟨hdet.trans hd, hs⟩

/-! ### The boundary -/

/-- What stems from the failure of `t` stays inside its boundary at step `n`. -/
structure Contained (w : World σ) (o : RunOptions) (c : Config σ) (t n : Nat) : Prop where
  /-- It is thrown into ancestors of `t` only, after everybody nearer has failed of it; none of
  those has been let go of or is detached. -/
  upwards : ∀ u e, (run w o n c).resumption? u = some (.throw e) →
    (run w o n c).machine.registry.Descends u t ∧
    ∀ a, (run w o n c).machine.registry.Encloses a t → (run w o n c).machine.registry.Descends u a →
      ∃ v, (run w o n c).machine.registry.Clear (Passed w o c t n) a v
  /-- It neither is thrown into anybody above a task that has been let go of before, nor ends the
  run. -/
  letGo : ∀ k ≤ n, ∀ a v, (run w o k c).machine.registry.get? a = some v → v.abandoned = true →
    (run w o n c).machine.registry.Encloses a t →
    (∀ u e, (run w o n c).machine.registry.Descends u a →
      (run w o n c).resumption? u ≠ some (.throw e)) ∧ ¬ (run w o (n + 1) c).Blames
  /-- If `t` is detached and its failures are swallowed, it is thrown into nobody and does not end
  the run. -/
  swallowed : o.swallowSpawnErrors = true → ∀ v, (run w o n c).machine.registry.get? t = some v →
    v.detached = true →
    (∀ u e, (run w o n c).resumption? u ≠ some (.throw e)) ∧ ¬ (run w o (n + 1) c).Blames

theorem Stems.contained (hw : w.Candid) (hc : c.Underway) (h : Stems w o c t n) :
    Contained w o c t n := by
  have hu := h.underway hc
  obtain ⟨begun, hs⟩ := hu.sound
  have forest := Rehearsal.Sound.forest hs
  have hupwards : ∀ u e, (run w o n c).resumption? u = some (.throw e) →
      (run w o n c).machine.registry.Descends u t ∧
      ∀ a, (run w o n c).machine.registry.Encloses a t →
      (run w o n c).machine.registry.Descends u a →
        ∃ v, (run w o n c).machine.registry.Clear (Passed w o c t n) a v := by
    intro u e hr
    obtain ⟨climb, hne⟩ := h.climb_of_throw hc hr
    exact ⟨climb.encloses.resolve_left hne, fun a hat hua => climb.clear forest hat hua⟩
  have hblamed : ∀ a, (run w o n c).machine.registry.Encloses a t → (run w o (n + 1) c).Blames →
      (∃ v, (run w o n c).machine.registry.Clear (Passed w o c t n) a v) ∨
        ∃ v, (run w o n c).machine.registry.get? a = some v ∧ v.parent = none ∧
          (v.detached && o.swallowSpawnErrors) = false := by
    intro a hat hb
    obtain ⟨d, u, climb, hd, hp, hs⟩ := h.climb_of_blames hw hc hb
    have hda : d = a ∨ (run w o n c).machine.registry.Descends d a := by
      rcases climb.encloses with rfl | hdt
      · refine hat.imp Eq.symm fun hat => ?_
        obtain ⟨p, hparent, _⟩ := hat.parent hd
        rw [hp] at hparent
        cases hparent
      · refine (hdt.total hat).imp id fun h => h.resolve_right fun had => ?_
        obtain ⟨p, hparent, _⟩ := had.parent hd
        rw [hp] at hparent
        cases hparent
    rcases hda with rfl | hda
    · exact Or.inr ⟨u, hd, hp, hs⟩
    · exact Or.inl (climb.clear forest hat hda)
  refine ⟨hupwards, fun k hk a v hv hgone hat => ?_, fun hswallow v hv hdet => ?_⟩
  · obtain ⟨j, rfl⟩ := Nat.exists_eq_add_of_le hk
    obtain ⟨v', hv', onward⟩ := onward_run w o hv j
    rw [← run_add] at hv'
    have hgone' := onward.abandoned hgone
    refine ⟨fun u e hua hr => ?_, fun hb => ?_⟩
    · obtain ⟨_, hclear⟩ := (hupwards u e hr).2 a hat hua
      exact Bool.false_ne_true ((hclear.unbound hv').1.symm.trans hgone')
    · rcases hblamed a hat hb with ⟨_, hclear⟩ | ⟨u, hu', hp, _⟩
      · exact Bool.false_ne_true ((hclear.unbound hv').1.symm.trans hgone')
      · rw [hv', Option.some.injEq] at hu'
        exact hu.gone a v' hv' hgone' (hu' ▸ hp)
  · refine ⟨fun u e hr => ?_, fun hb => ?_⟩
    · obtain ⟨hdesc, hclear⟩ := hupwards u e hr
      obtain ⟨_, hclear⟩ := hclear t (Or.inl rfl) hdesc
      exact Bool.false_ne_true ((hclear.unbound hv).2.symm.trans hdet)
    · rcases hblamed t (Or.inl rfl) hb with ⟨_, hclear⟩ | ⟨u, hu', _, hs⟩
      · exact Bool.false_ne_true ((hclear.unbound hv).2.symm.trans hdet)
      · rw [hv, Option.some.injEq] at hu'
        subst hu'
        rw [hdet, hswallow] at hs
        cases hs

end Config

/-- The root waits for a call that fails later, and fails itself when that is thrown into it. -/
def Playbook.relayed : Playbook where
  responses g := if g = 0 then [.yielded (.effect (.call .null [] [])),
    .raised ⟨.runtime, [], .scheduler 0⟩] else []
  plans := [{ CallPlan.real with error := some ⟨.value, [], .scheduler 0⟩, wait := .tick 1 }]

end Rehearsal
