import Rehearsal.Proofs.Engine.Regular

/-!
# What a failure leads to

`Stems` follows the failure of one task along a run: from step to step while an exception is on its
way, and, where a running task cannot be told of it, to the fork or composite that raises it again
once it goes on. `Borne` says who bears the exception meanwhile. It climbs the ancestors of the
failed task, each of which has failed before the next is reached; a detour leads through
placeholders that stand above the next of them.
-/
namespace Rehearsal

variable {σ : Type} {begun : Nat → Prop}

namespace Config

variable (w : World σ) (o : RunOptions) (c : Config σ) (t : Nat)

/-- At step `n` of the run from `c` an exception is on its way on account of the failure of `t`. -/
inductive Stems : Nat → Prop
  | fails {n : Nat} {e : Exn} (control : (run w o n c).control = .fail t e) : Stems n
  | carried {n : Nat} {e : Exn} (h : Stems n)
      (next : (run w o (n + 1) c).control.exn? = some e) : Stems (n + 1)
  | raisedAgain {k n a : Nat} {e e' : Exn} {f : Frame} {below : List Frame} (h : Stems k)
      (failed : (run w o k c).control = .fail a e) (later : k < n)
      (control : (run w o n c).control = .done) (stack : (run w o n c).stack = f :: below)
      (ward : a ∈ f.wards) (next : (run w o (n + 1) c).control = .raised e') : Stems (n + 1)

/-- On account of the failure of `t`, task `a` has come to fail at step `n`: it is `t`, or an
exception was thrown into it just before, or it has no coroutine that one could be thrown into. -/
def Arrives (n a : Nat) : Prop :=
  a = t ∨ ∃ k, n = k + 1 ∧ Stems w o c t k ∧
    ((∃ e, (run w o k c).resumption? a = some (.throw e)) ∨
      ∃ u, (run w o k c).machine.get? a = some u ∧ u.coroutine = none)

def Passed (n a : Nat) : Prop :=
  ∃ k < n, ∃ e, Stems w o c t k ∧ (run w o k c).control = .fail a e ∧ Arrives w o c t k a

end Config

/-- From `t` upwards, every task below `a` has passed, belongs to its parent and has not been let go
of. -/
inductive Registry.Climb (r : Registry) (passed : Nat → Prop) (t : Nat) : Nat → Prop
  | here : Climb r passed t t
  | up {x p : Nat} {u : Task} (h : Climb r passed t x) (task : r.get? x = some u)
      (parent : u.parent = some p) (kept : u.abandoned = false) (attached : u.detached = false)
      (past : passed x) : Climb r passed t p

theorem Registry.Climb.mono {r : Registry} {passed passed' : Nat → Prop} {t p : Nat}
    (h : r.Climb passed t p) (hp : ∀ x, passed x → passed' x) : r.Climb passed' t p := by
  induction h with
  | here => exact .here
  | up _ task parent kept attached past ih => exact .up ih task parent kept attached (hp _ past)

/-- The task that bears the exception on its way. -/
def Config.bearer? (c : Config σ) : Option Nat :=
  match c.control, c.stack with
  | .fail a _, _ | .propagate a _, _ | .drive a (.throw _), _ => some a
  | .raised _, f :: _ => f.runner?
  | _, _ => none

/-- Task `a` bears the exception on the way up from `t`, or is a placeholder that stands above the
next task on that way. -/
inductive Config.Bears (c : Config σ) (passed : Nat → Prop) (t a : Nat) : Prop
  | straight (climb : c.machine.registry.Climb passed t a)
  | aside {p q : Nat} {u : Task} (climb : c.machine.registry.Climb passed t p)
      (owner : owner? c.stack = some p) (still : ∀ x, c.resumption? x = none)
      (task : c.machine.registry.get? a = some u) (parent : u.parent = some q)

/-! ### Single steps -/

/-- Where an exception is on its way, it is thrown into whoever is resumed. -/
theorem Resumes.throw_of_exn {stack below : List Frame} {control : Control} {t : Nat} {s : Signal}
    {e : Exn} (h : Resumes stack control t s below) (he : control.exn? = some e) :
    ∃ e, s = .throw e := by
  cases h with
  | driven _ _ _ =>
    cases s with
    | send _ => cases he
    | throw e => exact ⟨e, rfl⟩
  | thrown _ e _ => exact ⟨e, rfl⟩
  | _ => cases he

/-- A failure that is propagated has just happened. -/
theorem Turn.propagate_inv {o : RunOptions} {c c' : Config σ} {t : Nat}
    {e : Exn} (turn : Turn o c c')
    (h : c'.control = .propagate t e) : c.control = .fail t e := by
  have hfailure : ∀ f : Failure, f.control ≠ .propagate t e := fun f hf => by
    have hnone := f.subject?_control
    rw [hf] at hnone
    cases hnone
  cases turn with
  | fails _ _ _ =>
    cases h
    rfl
  | refuses _ _ _ _ f => exact (hfailure f h).elim
  | condemns _ _ _ => exact (hfailure (.exn _) h).elim
  | rethrows _ _ _ _ => exact (hfailure (.exn _) h).elim
  | runs _ _ leads => rcases leads with rfl | ⟨_, rfl⟩ | ⟨_, rfl⟩ | rfl <;> cases h
  | starts _ _ leads => rcases leads with rfl | rfl | ⟨_, _, rfl⟩ | ⟨_, rfl⟩ <;> cases h
  | climbs _ _ _ leads =>
    rw [leads] at h
    split at h <;> cases h
  | picks _ _ _ leads => rcases leads with rfl | rfl <;> cases h
  | _ => cases h

namespace Config

/-- A task that lets go of nobody who has failed. -/
def Firm (c c' : Config σ) (p : Nat) : Prop :=
  ∀ d u up, u.error.isSome = true → ¬ c.LetGoBy c' d u p up

variable {c c' : Config σ} {p : Nat}

theorem firm_of_error {u : Task} (hu : c.machine.registry.get? p = some u)
    (he : u.error.isSome = true) : Firm c c' p := by
  intro d v up _ h
  have ho := h.owner
  rw [hu, Option.some.injEq] at ho
  rw [ho, h.hale] at he
  cases he

theorem firm_of_running {u : Task} (hu : c.machine.registry.get? p = some u)
    (hr : u.running = true) :
    Firm c c' p := by
  intro d v up hv h
  have ho := h.owner
  rw [hu, Option.some.injEq] at ho
  rw [(h.concluded (ho ▸ hr)).1] at hv
  cases hv

/-- While an exception is on its way, only a parent that is told of it lets go of tasks. -/
theorem firm_of_exn {e : Exn} (he : c.control.exn? = some e)
    (hn : ∀ t e, c.control ≠ .propagate t e) : Firm c c' p := by
  intro d v up _ h
  rcases h.control with hnone | ⟨t, e', hp⟩
  · rw [he] at hnone
    cases hnone
  · exact hn t e' hp

/-- Those who have passed stay where they are, unless the one above lets go of them. -/
theorem climb_step (w : World σ) (o : RunOptions) {passed passed' : Nat → Prop} {t : Nat}
    (hc : c.Underway) (hp : ∀ x, passed x → passed' x)
    (herr : ∀ x, passed x → ∃ u, c.machine.registry.get? x = some u ∧ u.error.isSome = true)
    (h : c.machine.registry.Climb passed t p) (hfirm : Firm c (c.step w o) p) :
    (c.step w o).machine.registry.Climb passed' t p := by
  induction h with
  | here => exact .here
  | @up x p u _ task parent kept attached hpassed ih =>
    obtain ⟨v, hv, he⟩ := herr x hpassed
    rw [task, Option.some.injEq] at hv
    subst hv
    obtain ⟨u', hu', ha⟩ := (amends_step w o c).kept task
    refine .up (ih (firm_of_error task he)) hu' (ha.parent.trans parent) ?_
      (ha.detached.trans attached) (hp x hpassed)
    cases hab : u'.abandoned with
    | false => rfl
    | true =>
      exfalso
      obtain ⟨begun, hs⟩ := hc.sound
      obtain ⟨v, q, uq, hlet⟩ := letGoBy_of_step w o hs hu' hab fun v hv => by
        rw [task, Option.some.injEq] at hv
        exact hv ▸ kept
      have htask := hlet.task
      rw [task, Option.some.injEq] at htask
      subst htask
      have hparent := hlet.parent
      rw [parent, Option.some.injEq] at hparent
      subst hparent
      exact hfirm x u uq he hlet

/-- Whoever is resumed with an exception bears it. -/
theorem bearer_of_resumes (m : Machine σ) {stack below : List Frame} {control : Control} {t : Nat}
    {e : Exn} (h : Resumes stack control t (.throw e) below) :
    (⟨m, stack, control⟩ : Config σ).bearer? = some t := by
  cases h <;> rfl

/-- A failure that a parent heeds is none that a running task waits for. -/
theorem Underway.owner?_of_heeds {m : Machine σ} {stack : List Frame} {t p : Nat} {e : Exn}
    {u up : Task} (hc : (⟨m, stack, .propagate t e⟩ : Config σ).Underway)
    (h : m.registry.Heeds t p u up) : owner? stack = none := by
  cases ho : owner? stack with
  | none => rfl
  | some q =>
    exfalso
    obtain ⟨begun, hs⟩ := hc.sound
    cases hs with
    | propagating _ core nested _ _ =>
      obtain ⟨x, hx⟩ := exists_ward nested hc.lineal.stack (mem_runners_of_owner? ho)
      obtain rfl := hc.lineal.subject t x rfl hx
      obtain ⟨f, below, rfl, hward⟩ := ward?_eq_some hx
      obtain ⟨_, up', hup, hr, _⟩ := hc.parent_runs (.top hward) h.task h.parent
      have howner := h.owner
      rw [show m.registry.get? p = some up' from hup, Option.some.injEq] at howner
      rw [howner, h.idle] at hr
      cases hr

/-- Parents and detachment of all tasks are as before. -/
def SameFamily (c c' : Config σ) : Prop :=
  ∀ i u, c.machine.registry.get? i = some u → ∃ u', c'.machine.registry.get? i = some u' ∧
    u'.parent = u.parent ∧ u'.detached = u.detached

theorem sameFamily_step (w : World σ) (o : RunOptions) (c : Config σ) : SameFamily c (c.step w o) :=
  fun _ _ hu => ((amends_step w o c).kept hu).imp fun _ h => ⟨h.1, h.2.parent, h.2.detached⟩

/-- An exception that stays where it is goes on being borne. -/
theorem Bears.stays {passed passed' : Nat → Prop} {t a : Nat} (h : c.Bears passed t a)
    (climbs : ∀ p, c.machine.registry.Climb passed t p →
      c'.machine.registry.Climb passed' t p)
    (family : SameFamily c c') (owner : owner? c'.stack = owner? c.stack)
    (still : ∀ x, c'.resumption? x = none) : c'.Bears passed' t a := by
  cases h with
  | straight climb => exact .straight (climbs a climb)
  | aside climb above _ task parent =>
    obtain ⟨u', hu', hparent, _⟩ := family a _ task
    exact .aside (climbs _ climb) (owner.trans above) still hu' (hparent.trans parent)

/-- A parent that heeds the failure of `a` bears it next. -/
theorem Bears.climbs {passed passed' : Nat → Prop} {m : Machine σ} {stack : List Frame}
    {t a p : Nat} {e : Exn} {u up : Task}
    (h : (⟨m, stack, .propagate a e⟩ : Config σ).Bears passed t a)
    (hc : (⟨m, stack, .propagate a e⟩ : Config σ).Underway) (heeds : m.registry.Heeds a p u up)
    (climb : m.registry.Climb passed t a → c'.machine.registry.Climb passed' t a)
    (family : SameFamily ⟨m, stack, .propagate a e⟩ c')
    (orphans : c'.machine.registry.Orphans) (past : passed' a)
    (gone : ∀ u', c'.machine.registry.get? a = some u' → u'.abandoned = true →
      (∀ u, m.registry.get? a = some u → u.abandoned = false) →
      ∃ u p up, LetGoBy ⟨m, stack, .propagate a e⟩ c' a u p up) :
    c'.machine.registry.Climb passed' t p := by
  cases h with
  | aside _ owner _ _ _ =>
    rw [hc.owner?_of_heeds heeds] at owner
    cases owner
  | straight above =>
    obtain ⟨u', hu', hparent, _⟩ := family a u heeds.task
    rw [heeds.parent] at hparent
    refine .up (climb above) hu' hparent ?_ ?_ past
    · cases hab : u'.abandoned with
      | false => rfl
      | true =>
        obtain ⟨_, _, _, hlet⟩ := gone u' hu' hab fun v hv => by
          rw [show m.registry.get? a = some u from heeds.task, Option.some.injEq] at hv
          exact hv ▸ heeds.attached
        exact (hlet.told a e rfl rfl).elim
    · cases hd : u'.detached with
      | false => rfl
      | true =>
        have hnone := orphans a u' hu' hd
        rw [hparent] at hnone
        cases hnone

/-- One step further an exception on its way is borne by the same task or by the next one. -/
theorem Bears.carried (w : World σ) (o : RunOptions) {passed passed' : Nat → Prop} {t a : Nat}
    {e e' : Exn} (hc : c.Underway) (hp : ∀ x, passed x → passed' x)
    (herr : ∀ x, passed x → ∃ u, c.machine.registry.get? x = some u ∧ u.error.isSome = true)
    (told : ∀ a e, c.control = .propagate a e → passed a) (he : c.control.exn? = some e)
    (hb : c.bearer? = some a) (h : c.Bears passed t a)
    (next : (c.step w o).control.exn? = some e') :
    ∃ b, (c.step w o).bearer? = some b ∧ (c.step w o).Bears passed' t b := by
  obtain ⟨begun, hs⟩ := hc.sound
  have hturn := turn_step w o hs
  have hclimb := fun p => climb_step w o (p := p) (t := t) hc hp herr
  have hfamily := sameFamily_step w o c
  have hgone : ∀ d u', (c.step w o).machine.registry.get? d = some u' → u'.abandoned = true →
      (∀ u, c.machine.registry.get? d = some u → u.abandoned = false) →
      ∃ u p up, c.LetGoBy (c.step w o) d u p up := fun _ _ => letGoBy_of_step w o hs
  have horphans := (hc.toRegular.step w o).orphans
  generalize c.step w o = c' at next hturn hclimb hfamily hgone horphans ⊢
  cases hturn with
  | @escapes m _ _ _ _ _ _ resumes _ =>
    obtain ⟨e, rfl⟩ := resumes.throw_of_exn he
    rw [bearer_of_resumes m resumes, Option.some.injEq] at hb
    subst hb
    refine ⟨_, rfl, .straight ?_⟩
    cases h with
    | straight climb =>
      exact hclimb _ climb (firm_of_exn he fun t e h => by
        dsimp only at h
        subst h
        cases resumes)
    | aside _ _ still _ _ =>
      have hres := (resumption?_eq_some (c := ⟨m, _, _⟩)).mpr ⟨_, resumes⟩
      rw [still] at hres
      cases hres
  | sinks p below e =>
    obtain rfl : p = a := Option.some.inj hb
    exact ⟨p, rfl, h.stays (fun p climb => hclimb p climb (firm_of_exn he nofun)) hfamily rfl
      fun _ => rfl⟩
  | fails stack t' e =>
    obtain rfl : t' = a := Option.some.inj hb
    exact ⟨t', rfl, h.stays (fun p climb => hclimb p climb (firm_of_exn he nofun)) hfamily rfl
      fun _ => rfl⟩
  | @climbs m m' stack t' p e u up heeds control leads =>
    obtain rfl : t' = a := Option.some.inj hb
    have past := told t' e rfl
    obtain ⟨v, hv, hve⟩ := herr t' past
    refine ⟨p, ?_, .straight (h.climbs hc heeds
      (fun climb => hclimb t' climb (firm_of_error hv hve))
      hfamily horphans (hp t' past) (hgone t'))⟩
    rw [leads]
    split <;> rfl
  | runs _ _ _ => cases he
  | starts _ _ _ => cases he
  | refuses _ _ _ _ _ => cases he
  | condemns _ _ _ => cases he
  | rethrows _ _ _ _ => cases he
  | picks _ _ _ _ => cases he
  | _ => cases next

/-- An exception on its way keeps the run going. -/
theorem Underway.not_isFinal (hc : c.Underway) {e : Exn} (he : c.control.exn? = some e) :
    c.isFinal = false := by
  obtain ⟨begun, hs⟩ := hc.sound
  obtain ⟨m, stack, control⟩ := c
  cases hs with
  | raised _ _ nested =>
    obtain ⟨f, below, rfl, _⟩ := nested.inv_some
    rfl
  | aborted _ _ => cases he
  | looking _ _ => cases he
  | resting _ _ => cases he
  | settled _ _ => cases he
  | bubbling _ _ _ => cases he
  | _ => simp [isFinal]

end Config

namespace Config

variable {w : World σ} {o : RunOptions} {c : Config σ} {t n : Nat}

theorem Stems.exn (h : Stems w o c t n) : ∃ e, (run w o n c).control.exn? = some e := by
  cases h with
  | @fails _ e control => exact ⟨e, by rw [control]; rfl⟩
  | @carried _ e _ next => exact ⟨e, next⟩
  | @raisedAgain _ _ _ _ e' _ _ _ _ _ _ _ _ next => exact ⟨e', by rw [next]; rfl⟩

/-- Nothing stems from anything in a run that has been given up. -/
theorem Stems.underway (h : Stems w o c t n) (hc : c.Underway) : (run w o n c).Underway := by
  refine hc.run w o n fun f hf => ?_
  obtain ⟨e, he⟩ := h.exn
  rw [hf] at he
  cases he

theorem Passed.mono {n' a : Nat} (h : Passed w o c t n a) (hn : n ≤ n') : Passed w o c t n' a := by
  obtain ⟨k, hk, h⟩ := h
  exact ⟨k, Nat.lt_of_lt_of_le hk hn, h⟩

theorem Passed.error {a : Nat} (hc : c.Underway) (h : Passed w o c t n a) :
    ∃ u, (run w o n c).machine.registry.get? a = some u ∧ u.error.isSome = true := by
  obtain ⟨k, hk, e, _, hf, _⟩ := h
  obtain ⟨begun, hs⟩ := hc.sound
  obtain ⟨u, hu, he⟩ := error_of_fail w o hs hf hk
  exact ⟨u, hu, by rw [he]; rfl⟩

theorem turn_run {c : Config σ} (hc : (run w o n c).Underway) (h : (run w o n c).isFinal = false) :
    Turn o (run w o n c) (run w o (n + 1) c) := by
  obtain ⟨begun, hs⟩ := hc.sound
  rw [run_succ_of_not_isFinal h]
  exact turn_step w o hs

/-- A task that fails on account of `t` has come to fail on that account. -/
theorem Stems.arrives (hc : c.Underway) {a : Nat} {e : Exn} (h : Stems w o c t n)
    (hf : (run w o n c).control = .fail a e) : Arrives w o c t n a := by
  cases h with
  | fails control =>
    rw [hf] at control
    cases control
    exact Or.inl rfl
  | @carried n _ h next =>
    refine Or.inr ⟨n, rfl, h, ?_⟩
    have hu := h.underway hc
    obtain ⟨e', he⟩ := h.exn
    have hturn := turn_run hu (hu.not_isFinal he)
    generalize run w o (n + 1) c = c' at hf hturn
    generalize run w o n c = c₀ at hu he hturn
    cases hturn with
    | escapes resumes _ =>
      cases hf
      obtain ⟨e'', rfl⟩ := resumes.throw_of_exn he
      exact Or.inl ⟨e'', resumption?_eq_some.mpr ⟨_, resumes⟩⟩
    | sinks _ _ _ =>
      cases hf
      obtain ⟨u, hu', hco⟩ := hu.lineal.stack.fits.bare _ rfl
      exact Or.inr ⟨u, hu', hco⟩
    | @climbs _ _ _ _ p _ _ up heeds _ leads =>
      rw [leads] at hf
      split at hf
      · cases hf
      · rename_i hco
        cases hf
        refine Or.inr ⟨up, heeds.owner, ?_⟩
        simpa using hco
    | runs _ _ _ => cases he
    | starts _ _ _ => cases he
    | refuses _ _ _ _ f => cases he
    | condemns _ _ _ => cases he
    | rethrows _ _ _ _ => cases he
    | picks _ _ _ _ => cases he
    | _ => cases hf
  | raisedAgain _ _ _ _ _ _ next =>
    rw [hf] at next
    cases next

theorem Stems.passed (hc : c.Underway) {a n' : Nat} {e : Exn} (h : Stems w o c t n)
    (hf : (run w o n c).control = .fail a e) (hn : n < n') : Passed w o c t n' a :=
  ⟨n, hn, e, h, hf, h.arrives hc hf⟩

/-- Those who have passed stay where they are while the one above is firm. -/
theorem climb_run (hc : c.Underway) {k p : Nat} (hk : k ≤ n) (hlive : (run w o n c).Underway)
    (h : (run w o k c).machine.registry.Climb (Passed w o c t k) t p)
    (hfirm : ∀ j, k ≤ j → j < n → Firm (run w o j c) (run w o (j + 1) c) p) :
    (run w o n c).machine.registry.Climb (Passed w o c t n) t p := by
  induction n with
  | zero => exact Nat.le_zero.mp hk ▸ h
  | succ n ih =>
    rcases Nat.lt_or_eq_of_le hk with hlt | rfl
    · have hn : (run w o n c).Underway :=
        hc.run w o n fun f => not_abort_of_run w o (Nat.le_succ n) hlive.live f
      have hclimb := ih (Nat.le_of_lt_succ hlt) hn fun j hj hjn =>
        hfirm j hj (Nat.lt_succ_of_lt hjn)
      have hf := hfirm n (Nat.le_of_lt_succ hlt) (Nat.lt_succ_self n)
      rw [run_succ] at hf ⊢
      by_cases hfin : (run w o n c).isFinal
      · rw [if_pos hfin]
        exact hclimb.mono fun x hx => hx.mono (Nat.le_succ n)
      · rw [if_neg hfin] at hf ⊢
        exact climb_step w o hn (fun x hx => hx.mono (Nat.le_succ n))
          (fun x hx => hx.error hc) hclimb hf
    · exact h

/-- A ward was there, and tended in the same place, ever since it was made. -/
theorem tended_run (hc : c.Underway) {k a : Nat} {below : List Frame} (hk : k ≤ n)
    (hlive : (run w o n c).Underway) (h : Tended a below (run w o n c).stack)
    (ha : a < (run w o k c).machine.registry.size) : Tended a below (run w o k c).stack := by
  induction n with
  | zero => exact Nat.le_zero.mp hk ▸ h
  | succ n ih =>
    rcases Nat.lt_or_eq_of_le hk with hlt | rfl
    · have hn : (run w o n c).Underway :=
        hc.run w o n fun f => not_abort_of_run w o (Nat.le_succ n) hlive.live f
      have hkn := Nat.le_of_lt_succ hlt
      refine ih hkn hn ?_
      by_cases hfin : (run w o n c).isFinal
      · rw [run_succ, if_pos hfin] at h
        exact h
      · have hturn := turn_run hn (Bool.not_eq_true _ ▸ hfin)
        refine hturn.tended_before (Nat.lt_of_lt_of_le ha ?_) h
        obtain ⟨j, rfl⟩ := Nat.exists_eq_add_of_le hkn
        rw [run_add]
        exact size_run w o j
    · exact h

/-- Whoever is in hand and tended stands right above the frame that tends it. -/
theorem Underway.top_of_subject (hc : c.Underway) {a : Nat} {below : List Frame}
    (ha : c.control.subject? = some a) (h : Tended a below c.stack) :
    ∃ f, c.stack = f :: below ∧ a ∈ f.wards := by
  obtain ⟨begun, hs⟩ := hc.sound
  have hl := hc.lineal.stack
  have hsubject := hc.lineal.subject a
  have hnested : Nested none c.stack := by
    obtain ⟨m, stack, control⟩ := c
    cases hs with
    | driving _ nested _ _ => exact nested
    | selected _ nested _ _ => exact nested
    | starting _ nested _ _ _ => exact nested
    | completing _ _ nested _ _ _ => exact nested
    | failing _ _ nested _ _ _ => exact nested
    | propagating _ _ nested _ _ => exact nested
    | _ => cases ha
  obtain ⟨m, stack, control⟩ := c
  have hward : ∃ x, ward? stack = some x := by
    cases hnested with
    | batch _ _ => cases (h.skip rfl).skip rfl
    | round _ _ _ => cases (h.skip rfl).skip rfl
    | forked child _ => exact ⟨child, rfl⟩
    | composite k _ => exact ⟨_, List.getLast?_eq_some_getLast (hl.fits.opened k rfl)⟩
  obtain ⟨x, hx⟩ := hward
  obtain rfl := hsubject x ha hx
  obtain ⟨f, below', hstack, hmem⟩ := ward?_eq_some hx
  dsimp only at hstack hl h
  subst hstack
  exact ⟨f, by rw [h.of_top hl hmem], hmem⟩

/-- Whose failure is propagated on account of `t` has failed on that account. -/
theorem Stems.passed_of_propagate (hc : c.Underway) {a : Nat} {e : Exn} (h : Stems w o c t n)
    (hp : (run w o n c).control = .propagate a e) : Passed w o c t n a := by
  cases h with
  | fails control =>
    rw [hp] at control
    cases control
  | raisedAgain _ _ _ _ _ _ next =>
    rw [hp] at next
    cases next
  | @carried n _ h next =>
    have hu := h.underway hc
    obtain ⟨e', he⟩ := h.exn
    have hf := (turn_run hu (hu.not_isFinal he)).propagate_inv hp
    exact h.passed hc hf (Nat.lt_succ_self n)

/-- An exception that is raised where `p` answers for effects is borne by `p`, or above it. -/
theorem bears_of_owner {m : Machine σ} {below : List Frame} {e : Exn}
    {passed : Nat → Prop} {y p : Nat}
    (nested : Nested (some y) below) (stands : ∀ f ∈ below, f.Stands m.registry)
    (owner : owner? below = some p) (climb : m.registry.Climb passed t p) :
    (⟨m, below, .raised e⟩ : Config σ).bearer? = some y ∧
      (⟨m, below, .raised e⟩ : Config σ).Bears passed t y := by
  cases nested with
  | driving _ _ =>
    cases owner
    exact ⟨rfl, .straight climb⟩
  | @member _ k _ hp _ =>
    obtain ⟨key, hmem⟩ := hp
    obtain ⟨u, hu, hparent, _⟩ :=
      stands (.composite k) (List.mem_cons_of_mem _ (List.mem_cons_self ..)) (key, y) hmem
    exact ⟨rfl, .aside climb owner (fun _ => rfl) hu hparent⟩

/-- Whoever is blocked behind a frame that raises an exception again has a parent: the task for
which the exception is raised, or the nearest one below that is being driven. -/
theorem Underway.parent_of_raised {m : Machine σ} {f : Frame} {below : List Frame} {a y : Nat}
    (hc : (⟨m, f :: below, .done⟩ : Config σ).Underway) (nested : Nested (some y) below)
    (ward : a ∈ f.wards) (attached : ∀ child u, f = .forked child →
      m.registry.get? child = some u → u.detached = false) :
    ∃ u p, m.registry.get? a = some u ∧ u.parent = some p ∧ u.abandoned = false ∧
      u.detached = false ∧ (p = y ∨ owner? below = some p) := by
  obtain ⟨begun, hs⟩ := hc.sound
  cases hs with
  | looking _ _ => cases ward
  | resting core nested' =>
    have hstands := core.frames f (List.mem_cons_self ..)
    have hl := hc.lineal.stack
    obtain ⟨u, hu⟩ := Registry.exists_of_lt
      (core.holds_lt (List.mem_cons_self ..) (List.mem_append_left _ ward))
    have hparent : ∃ p, u.parent = some p := by
      cases nested' with
      | batch _ _ => cases ward
      | round _ _ _ => cases ward
      | composite k _ =>
        obtain ⟨entry, hentry, rfl⟩ := List.mem_map.mp ward
        obtain ⟨v, hv, hp, _⟩ := hstands entry hentry
        rw [hu, Option.some.injEq] at hv
        exact ⟨_, hv ▸ hp⟩
      | forked child _ =>
        obtain rfl : a = child := List.mem_singleton.mp ward
        obtain ⟨v, hv, hkin⟩ := hl.fits.kin a rfl
        rw [hu, Option.some.injEq] at hv
        subst hv
        rcases hkin with ⟨hd, _⟩ | ⟨_, hp⟩
        · rw [attached a u rfl hu] at hd
          cases hd
        · exact ⟨_, hp.trans (nested.owner?_eq_go core.forest
            (fun f hf => core.frames f (List.mem_cons_of_mem _ hf)) hl.tail y (Or.inl rfl))⟩
    obtain ⟨p, hp⟩ := hparent
    have hd : u.detached = false := by
      cases hd : u.detached with
      | false => rfl
      | true =>
        rw [hc.orphans a u hu hd] at hp
        cases hp
    refine ⟨u, p, hu, hp, ?_, hd, ?_⟩
    · rcases parent_of_ward hstands nested' hl ward hu hp with ⟨_, hkept⟩ | ⟨rfl, _⟩
      · exact hkept
      · exact hc.kept a u (List.mem_cons_self ..) hu
    · rcases parent_of_ward hstands nested' hl ward hu hp with ⟨hn, _⟩ | ⟨_, ho⟩
      · refine Or.inl ?_
        obtain ⟨f₁, b₁, rfl, h₁, _⟩ := nested.inv_some
        obtain ⟨f₂, b₂, hb, h₂, _⟩ := hn.inv_some
        cases hb
        rcases h₁ with rfl | rfl <;> rcases h₂ with h | h <;> cases h <;> rfl
      · exact Or.inr ho

/-- An exception that is raised again is borne by whoever stands above the next task. -/
theorem borne_raisedAgain (hc : c.Underway) {k a : Nat} {e e' : Exn}
    {f : Frame} {below : List Frame}
    (failed : (run w o k c).control = .fail a e) (later : k < n)
    (control : (run w o n c).control = .done) (stack : (run w o n c).stack = f :: below)
    (ward : a ∈ f.wards) (next : (run w o (n + 1) c).control = .raised e') (h : Stems w o c t k)
    (borne : (run w o k c).Bears (Passed w o c t k) t a) :
    ∃ b, (run w o (n + 1) c).bearer? = some b ∧
      (run w o (n + 1) c).Bears (Passed w o c t (n + 1)) t b := by
  have hu' : (run w o (n + 1) c).Underway := hc.run w o (n + 1) fun f hf => by
    rw [next] at hf
    cases hf
  have hunder : ∀ j ≤ n, (run w o j c).Underway := fun j hj => hc.run w o j fun f =>
    not_abort_of_run w o (Nat.le_succ_of_le hj) hu'.live f
  have hu := hunder n (Nat.le_refl n)
  have huk := hunder k (Nat.le_of_lt later)
  have hturn := turn_run hu (by simp [isFinal, stack])
  obtain ⟨hmachine, hstack', hfork⟩ := hturn.raised_inv control stack next
  obtain ⟨begun, hs⟩ := hc.sound
  obtain ⟨_, _, hsk⟩ := sound_run w o hs k
  obtain ⟨u, hua, _⟩ := failing_task hsk failed
  -- since it failed, the ward has been waited for above the same frames
  have htended : ∀ j, k ≤ j → j ≤ n → Tended a below (run w o j c).stack := by
    intro j hkj hjn
    refine tended_run hc hjn hu (stack ▸ .top ward)
      (Nat.lt_of_lt_of_le (Registry.get?_eq_some_lt hua) ?_)
    obtain ⟨i, rfl⟩ := Nat.exists_eq_add_of_le hkj
    rw [run_add]
    exact size_run w o i
  obtain ⟨g, hstack, hg⟩ := huk.top_of_subject (by rw [failed]; rfl)
    (htended k (Nat.le_refl k) (Nat.le_of_lt later))
  obtain ⟨y, hy, hstands⟩ : ∃ y, Nested (some y) below ∧
      ∀ f ∈ below, f.Stands (run w o n c).machine.registry := by
    obtain ⟨begun', hs'⟩ := hu'.sound
    rw [Config.Sound, next, hstack', hmachine] at hs'
    cases hs' with
    | raised _ core nested => exact ⟨_, nested, core.frames⟩
  have hafter : run w o (n + 1) c = ⟨(run w o n c).machine, below, .raised e'⟩ := by
    rw [← hmachine, ← hstack', ← next]
  have hgrow : ∀ x, Passed w o c t n x → Passed w o c t (n + 1) x :=
    fun x hx => hx.mono (Nat.le_succ n)
  rw [hafter]
  cases borne with
  | aside climb owner _ _ _ =>
    rw [hstack, owner?_of_ward hg] at owner
    have hclimb := climb_run hc (Nat.le_of_lt later) hu climb fun j hkj hjn => by
      obtain ⟨up, hup, hrun, _⟩ := (hunder j (Nat.le_of_lt hjn)).runs
        ((htended j hkj (Nat.le_of_lt hjn)).runners_subset (mem_runners_of_owner? owner))
      exact firm_of_running hup hrun
    exact ⟨y, bears_of_owner hy hstands owner (hclimb.mono hgrow)⟩
  | straight climb =>
    have hclimb := climb_run hc (Nat.le_of_lt later) hu climb fun j hkj hjn => by
      rcases Nat.lt_or_eq_of_le hkj with hlt | rfl
      · obtain ⟨v, hv, he⟩ := error_of_fail w o hs failed hlt
        exact firm_of_error hv (by rw [he]; rfl)
      · refine firm_of_exn (by rw [failed]; rfl) fun i e h => ?_
        rw [failed] at h
        cases h
    have hrest : run w o n c = ⟨(run w o n c).machine, f :: below, .done⟩ := by
      rw [← control, ← stack]
    rw [hrest] at hu
    obtain ⟨u, p, hua, hp, hkept, hd, hpy⟩ := hu.parent_of_raised hy ward hfork
    have hup := Registry.Climb.up (hclimb.mono hgrow) hua hp hkept hd
      (h.passed hc failed (Nat.lt_succ_of_lt later))
    rcases hpy with rfl | owner
    · refine ⟨p, ?_, .straight hup⟩
      obtain ⟨g', under, rfl, rfl | rfl, _⟩ := hy.inv_some <;> rfl
    · exact ⟨y, bears_of_owner hy hstands owner hup⟩

/-- **Whatever stems from the failure of a task is borne on the way up from it.** -/
theorem Stems.borne (hc : c.Underway) (h : Stems w o c t n) :
    ∃ a, (run w o n c).bearer? = some a ∧ (run w o n c).Bears (Passed w o c t n) t a := by
  induction h with
  | fails control => exact ⟨t, by simp [bearer?, control], .straight .here⟩
  | carried h next ih =>
    obtain ⟨a, hb, borne⟩ := ih
    have hu := h.underway hc
    obtain ⟨e', he⟩ := h.exn
    rw [run_succ_of_not_isFinal (hu.not_isFinal he)] at next ⊢
    exact borne.carried w o hu (fun x hx => hx.mono (Nat.le_succ _)) (fun x hx => hx.error hc)
      (fun a e hp => h.passed_of_propagate hc hp) he hb next
  | raisedAgain h failed later control stack ward next ih =>
    obtain ⟨a', hb, borne⟩ := ih
    simp only [bearer?, failed, Option.some.injEq] at hb
    subst hb
    exact borne_raisedAgain hc failed later control stack ward next h borne

end Config

end Rehearsal
