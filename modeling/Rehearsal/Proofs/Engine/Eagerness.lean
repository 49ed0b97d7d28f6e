import Rehearsal.Proofs.Engine.Collecting
import Rehearsal.Proofs.Engine.Stems

/-!
# Running tasks have been started by each other

The frame of a running task rests on the fork or composite that it was started for, and that on the
frame of the task that asked for it, whose effect is still being interpreted. So whoever runs has
been started at once by the task that runs right below, and no other way has been taken since. This
holds while a run is given up, too: all that is left of the stack then is its lower part.
-/
namespace Rehearsal

variable {σ : Type} {begun : Nat → Prop} {t : Nat} {w : World σ} {o : RunOptions}

/-- One frame only stands right above `below`. -/
theorem Tops.frame_unique {f g : Frame} {below stack : List Frame} (h : Tops (· = f) below stack)
    (h' : Tops (· = g) below stack) : f = g := by
  have hlonger : ∀ {P : Frame → Prop} {stack : List Frame}, Tops P below stack →
      below.length < stack.length := by
    intro P stack h
    induction h with
    | top _ => exact Nat.lt_succ_self _
    | under _ ih => exact Nat.lt_succ_of_lt ih
  induction h with
  | top hf =>
    cases h' with
    | top hg => exact hf.symm.trans hg
    | under h' => exact (Nat.lt_irrefl _ (hlonger h')).elim
  | under h ih =>
    cases h' with
    | top hg => exact (Nat.lt_irrefl _ (hlonger h)).elim
    | under h' => exact ih h'

/-- A failure has nobody driven. -/
theorem Failure.control_ne_drive (f : Failure) (s : Signal) : f.control ≠ .drive t s := by
  intro h
  have hnone := f.subject?_control
  rw [h] at hnone
  cases hnone

namespace Resumes

variable {r : Registry} {stack below : List Frame} {control : Control} {s : Signal}

theorem ne_abort (h : Resumes stack control t s below) (f : Failure) : control ≠ .abort f := by
  rintro rfl
  cases h

theorem sublist (h : Resumes stack control t s below) : below.Sublist stack := by
  cases h with
  | driven _ _ _ => exact List.Sublist.refl _
  | _ => exact List.sublist_cons_self ..

/-- A coroutine is resumed above an activity of the scheduler. -/
theorem nested (h : Resumes stack control t s below) (hs : Sound begun r stack control) :
    Nested none below := by
  cases h with
  | driven _ _ _ =>
    cases hs with
    | driving _ nested _ _ => exact nested
  | answered _ _ _ =>
    cases hs with
    | answered _ nested _ =>
      cases nested with
      | driving _ nested => exact nested
  | entered _ _ _ =>
    cases hs with
    | answered _ nested _ =>
      cases nested with
      | driving _ nested => exact nested
  | thrown _ _ _ =>
    cases hs with
    | raised _ _ nested =>
      cases nested with
      | driving _ nested => exact nested

end Resumes

/-! ### What an interpretation sets going -/

/-- The interpretation has come to its end: with an answer, or with a failure. -/
inductive Outcome.Ends : Outcome σ → Prop
  | answered {m : Machine σ} {frames : List Frame} (a : Answer) : Ends ⟨m, frames, .answer a⟩
  | raised {m : Machine σ} {frames : List Frame} (e : Exn) : Ends ⟨m, frames, .raised e⟩
  | aborted {m : Machine σ} {frames : List Frame} (f : Failure) : Ends ⟨m, frames, .abort f⟩

theorem Outcome.ends_failure (m : Machine σ) (f : Failure) : (Outcome.failure m f).Ends := by
  cases f with
  | exn e =>
    unfold failure Failure.control
    dsimp only
    split
    · exact .raised e
    · exact .aborted _
  | harness h => exact .aborted _

theorem Outcome.ends_report (m : Machine σ) (v : Value) (h : HarnessError) :
    (Outcome.report m v h).Ends := by
  rcases Outcome.report_cases m v h with heq | ⟨_, heq⟩
  · exact heq ▸ Outcome.ends_failure m (.harness h)
  · exact heq ▸ Outcome.ends_failure m (.exn m.unwritable)

namespace Machine

variable {m : Machine σ}

theorem ends_concludeComposite (k : Composite) : (m.concludeComposite k).Ends := by
  rw [concludeComposite_eq]
  split
  · exact Outcome.ends_failure _ (.exn _)
  · dsimp only
    split
    · exact .answered _
    · split
      · exact .answered _
      · exact .answered _

theorem ends_interpretCall (w : World σ) (call : Call) : (m.interpretCall w t call).Ends := by
  unfold interpretCall
  obtain ⟨answer, s⟩ := w.plan m.view call false m.outer
  cases answer with
  | error f => exact Outcome.ends_failure _ f
  | ok plan =>
    dsimp only
    split
    · obtain ⟨produced, m'⟩ := produce w { m with outer := s } plan call
      cases produced with
      | error e => exact Outcome.ends_failure _ (.exn e)
      | ok v =>
        dsimp only
        unfold Machine.produced
        split <;> exact .answered _
    · exact .answered _

theorem ends_interpretExternal (w : World σ) (e : Effect) (b : Bool) :
    (m.interpretExternal w t e b).Ends := by
  unfold interpretExternal
  split
  · exact Outcome.ends_failure _ (.harness _)
  · rename_i handler _
    dsimp only
    obtain ⟨reaction, s⟩ := handler m.view ⟨⟨t, m.nameOf t, true⟩, b, m.steps⟩ m.outer
    cases reaction with
    | error f => exact Outcome.ends_failure _ f
    | ok reaction =>
      cases reaction with
      | advance v => exact .answered _
      | defer v wait name => exact .answered _
      | invalid v => exact Outcome.ends_report ..

/-- Only forks, and races and gathers, have something else done before they are answered. -/
theorem ends_interpretEffect (w : World σ) {e : Effect}
    (hfork : ∀ fn args kwargs detached, e ≠ .fork fn args kwargs detached)
    (hmembers : ∀ race members, e ≠ .ofMembers race members) (b : Bool) :
    (m.interpretEffect w t e b).Ends := by
  unfold interpretEffect
  split
  · exact ends_interpretCall w _
  · exact (hfork _ _ _ _ rfl).elim
  · unfold interpretJoin
    split
    · exact Outcome.ends_failure _ (.exn _)
    · dsimp only
      split <;> exact .answered _
  · exact (hmembers true _ rfl).elim
  · exact (hmembers false _ rfl).elim
  · unfold interpretCancel
    split
    · exact Outcome.ends_failure _ (.exn _)
    · exact .answered _
  · exact .answered _
  · unfold interpretCancelled
    split <;> exact .answered _
  · exact .answered _
  · exact ends_interpretExternal w _ b

theorem interpretFork_starts (w : World σ) (call : Call) (detached : Bool) :
    (m.interpretFork w t call detached).Ends ∨
      ∃ x, (m.interpretFork w t call detached).control = .start x := by
  unfold interpretFork
  obtain ⟨answer, s⟩ := w.plan m.view call true m.outer
  cases answer with
  | error f => exact Or.inl (Outcome.ends_failure _ f)
  | ok plan =>
    dsimp only
    rw [create_eq]
    split
    · exact Or.inr ⟨_, rfl⟩
    · exact Or.inl (.answered _)

theorem interpretComposite_starts (race : Bool) (members : Members) :
    (m.interpretComposite t race members).Ends ∨
      ∃ p member, (m.interpretComposite t race members).control = .interpret p member true := by
  unfold interpretComposite continueComposite
  split
  · exact Or.inl (ends_concludeComposite _)
  · dsimp only
    rw [create_eq]
    exact Or.inr ⟨_, _, rfl⟩

/-- What starts a task is a fork, and what starts a member is a race or gather. -/
theorem ends_or_starts (m : Machine σ) (w : World σ) (o : RunOptions) (t : Nat)
    (effect : Value) (b : Bool) :
    (m.interpret w o t effect b).Ends ∨
      (∃ x, (m.interpret w o t effect b).control = .start x ∧
        ∃ fn args kwargs detached, effect = .effect (.fork fn args kwargs detached)) ∨
      (∃ p member, (m.interpret w o t effect b).control = .interpret p member true ∧
        ∃ race members, effect = .effect (.ofMembers race members)) := by
  rcases m.interpret_cases w o t effect b with ⟨f, he⟩ | ⟨g, _, he⟩ | ⟨e, rfl, he⟩
  · exact Or.inl (he ▸ Outcome.ends_failure _ f)
  · exact Or.inl (he ▸ .answered _)
  rw [he]
  by_cases hfork : ∃ fn args kwargs detached, e = .fork fn args kwargs detached
  · obtain ⟨fn, args, kwargs, detached, rfl⟩ := hfork
    refine (interpretFork_starts (m := m.counted) w ⟨fn, args, kwargs⟩ detached).imp_right ?_
    exact fun ⟨x, hx⟩ => Or.inl ⟨x, hx, _, _, _, _, rfl⟩
  by_cases hmembers : ∃ race members, e = .ofMembers race members
  · obtain ⟨race, members, rfl⟩ := hmembers
    rw [interpretEffect_ofMembers]
    refine (interpretComposite_starts (m := m.counted) race members).imp_right ?_
    exact fun ⟨p, member, hp⟩ => Or.inr ⟨p, member, hp, _, _, rfl⟩
  · exact Or.inl
      (ends_interpretEffect w (fun fn args kwargs d hd => hfork ⟨fn, args, kwargs, d, hd⟩)
      (fun race members hm => hmembers ⟨race, members, hm⟩) b)

end Machine

/-! ### What running tasks rest on -/

/-- If anything runs below a task that runs, the frame of the latter rests on the fork or composite
that waits for it, and that on the frame of the task it belongs to. -/
def Frame.Seated (f : Frame) (below : List Frame) : Prop :=
  ∀ x, f.runner? = some x → runners below = [] ∨
    ∃ g h under y, below = g :: h :: under ∧ h.runner? = some y ∧
      (g = .forked x ∨ ∃ k, g = .composite k ∧ k.task = y ∧ x ∈ k.members)

theorem Lineage.seated {r : Registry} {f : Frame} {below : List Frame} (h : Lineage r below)
    (nested : Nested none below) (hf : f.runner? = some t)
    (mine : ∀ x, ward? below = some x → x = t) :
    f.Seated below := by
  intro x hx
  obtain rfl : t = x := Option.some.inj (hf.symm.trans hx)
  cases nested with
  | batch _ _ => exact Or.inl rfl
  | round _ _ _ => exact Or.inl rfl
  | forked child nested =>
    obtain ⟨g, under, rfl, hg⟩ := nested.exists_runner
    exact Or.inr ⟨_, g, under, _, rfl, hg, Or.inl (by rw [mine child rfl])⟩
  | composite k nested =>
    obtain ⟨g, under, rfl, hg⟩ := nested.exists_runner
    have hlast := List.getLast?_eq_some_getLast (h.fits.opened k rfl)
    refine Or.inr ⟨_, g, under, _, rfl, hg, Or.inr ⟨k, rfl, rfl, ?_⟩⟩
    rw [← mine _ hlast]
    exact List.getLast_mem _

theorem Lineage.seated_of_tops {r : Registry} {who : Option Nat} {f : Frame}
    {stack below : List Frame}
    (h : Lineage r stack) (nested : Nested who stack) (ht : Tops (· = f) below stack) :
    f.Seated below := by
  induction ht generalizing who with
  | top hf =>
    subst hf
    intro x hx
    refine h.tail.seated ?_ hx (fun a => h.fits.mine x a hx) x hx
    cases nested with
    | driving _ nested => exact nested
    | member _ _ nested => exact nested
    | _ => cases hx
  | under ht ih =>
    rcases nested.tail with ⟨who', nested'⟩ | ⟨root, rfl⟩
    · exact ih h.tail nested'
    · cases ht with
      | top hf =>
        subst hf
        exact nofun
      | under ht => cases ht

namespace Config

variable {c : Config σ} {n : Nat}

theorem Underway.seated (h : c.Underway) {f : Frame} {below : List Frame}
    (ht : Tops (· = f) below c.stack) :
    f.Seated below := by
  obtain ⟨begun, hs⟩ := h.sound
  rcases Sound.on_stack hs h.live with ⟨_, who, _, nested⟩ | ⟨root, hstack⟩ | hstack
  · exact h.lineal.stack.seated_of_tops nested ht
  · rw [hstack] at ht
    cases ht with
    | top hf =>
      subst hf
      exact nofun
    | under ht => cases ht
  · rw [hstack] at ht
    cases ht

/-- **Whoever runs is seated**, also while the run is given up. -/
theorem seated_run (w : World σ) (o : RunOptions) (hc : c.Underway) (n : Nat) {f : Frame}
    {below : List Frame} (ht : Tops (· = f) below (run w o n c).stack) : f.Seated below := by
  induction n with
  | zero => exact hc.seated ht
  | succ n ih =>
    by_cases live : ∀ f, (run w o (n + 1) c).control ≠ .abort f
    · exact (hc.run w o _ live).seated ht
    simp only [not_forall, not_not] at live
    obtain ⟨failure, hf⟩ := live
    cases hfin : (run w o n c).isFinal with
    | true =>
      rw [run_succ, if_pos hfin] at ht
      exact ih ht
    | false =>
      obtain ⟨begun, hs⟩ := hc.sound
      obtain ⟨_, _, hsn⟩ := sound_run w o hs n
      have hturn := turn_step w o hsn
      rw [run_succ_of_not_isFinal hfin] at ht hf
      rcases hturn.tops_before ht with ht | ⟨_, rfl, hpush⟩
      · exact ih ht
      cases hpush with
      | resumed resumes =>
        obtain ⟨hlineage, hmine⟩ := (hc.run w o n resumes.ne_abort).lineal.mine resumes
        exact hlineage.seated (resumes.nested hsn) rfl hmine
      | looped _ idle =>
        intro x hx
        rw [idle] at hx
        cases hx
      | member next =>
        rw [hf] at next
        cases next
      | _ => exact nofun

/-! ### What frames wait for -/

/-- The fork or composite `f` has stood above `below` since it was put there for the sake of an
effect, which is still being interpreted after `n` steps of the run from `c`. -/
inductive Hosts (w : World σ) (o : RunOptions) (c : Config σ) (n : Nat) : Frame → List Frame → Prop
  | forked {j x y : Nat} {fn : Value} {args : List Value}
      {kwargs : List (String × Value)} {detached b : Bool}
      (before : j < n)
      (asked : (run w o j c).control = .interpret y (.effect (.fork fn args kwargs detached)) b)
      (started : (run w o (j + 1) c).control = .start x)
      (since : ∀ i, j < i → i ≤ n → Tops (· = .forked x) (run w o j c).stack (run w o i c).stack) :
      Hosts w o c n (.forked x) (run w o j c).stack
  | composite {j : Nat} {k : Composite} {race : Bool} {members : Members}
      {b : Bool} (before : j < n)
      (asked : (run w o j c).control = .interpret k.task (.effect (.ofMembers race members)) b)
      (collects : Collects w o (run w o j c) k.task race members (n - j) k)
      (since : ∀ i, j < i → i ≤ n →
        Tops (fun f => ∃ k', f = .composite k' ∧ k'.task = k.task) (run w o j c).stack
          (run w o i c).stack) :
      Hosts w o c n (.composite k) (run w o j c).stack

/-- A frame that stays where it is goes on waiting. -/
theorem Hosts.succ {f : Frame} {below : List Frame} (h : Hosts w o c n f below)
    (ht : Tops (· = f) below (run w o (n + 1) c).stack) : Hosts w o c (n + 1) f below := by
  cases h with
  | forked before asked started since =>
    refine .forked (Nat.lt_succ_of_lt before) asked started fun i hj hi => ?_
    rcases Nat.lt_or_eq_of_le hi with hi | rfl
    · exact since i hj (Nat.le_of_lt_succ hi)
    · exact ht
  | composite before asked collects since =>
    refine .composite (Nat.lt_succ_of_lt before) asked (collects.mono (by omega)) fun i hj hi => ?_
    rcases Nat.lt_or_eq_of_le hi with hi | rfl
    · exact since i hj (Nat.le_of_lt_succ hi)
    · exact ht.imp fun f _ hf => ⟨_, hf, rfl⟩

theorem not_interpret_of_ends {r : Outcome σ} (h : r.Ends) {p : Nat} {v : Value} {b : Bool} :
    r.control ≠ .interpret p v b := by
  cases h <;> exact nofun

theorem not_start_of_ends {r : Outcome σ} (h : r.Ends) {x : Nat} : r.control ≠ .start x := by
  cases h <;> exact nofun

theorem step_interpret (w : World σ) (o : RunOptions) {effect : Value} {b : Bool}
    (h : c.control = .interpret t effect b) :
    c.step w o = ofOutcome c.stack (c.machine.interpret w o t effect b) := by
  unfold step
  rw [h]

/-- The composite that has just begun, or gone on, stands in its place. -/
theorem Stands.hosts {race : Bool} {members : Members} {k : Composite}
    {j : Nat} {p : Nat} {v : Value}
    {b : Bool} (h : Stands w o (run w o j c) t race members (n + 1 - j) ∨
      Concluded w o (run w o j c) t race members (n + 1 - j)) (hj : j ≤ n)
    (next : (run w o (n + 1) c).control = .interpret p v b)
    (ht : Tops (· = .composite k) (run w o j c).stack (run w o (n + 1) c).stack) :
    Collects w o (run w o j c) t race members (n + 1 - j) k := by
  have hrun : run w o (n + 1 - j) (run w o j c) = run w o (n + 1) c := by
    rw [← run_add, Nat.add_sub_cancel' (Nat.le_succ_of_le hj)]
  rcases h with ⟨k', hk', ht'⟩ | ⟨k', m, _, _, hconclude⟩
  · rw [hrun] at ht'
    cases ht.frame_unique ht'
    exact hk'
  · rw [hrun] at hconclude
    rw [hconclude] at next
    exact (not_interpret_of_ends (Machine.ends_concludeComposite k') next).elim

/-- A fork that starts its task has just been put there for its effect. -/
theorem hosts_forked (w : World σ) (o : RunOptions) {n x : Nat}
    (hfin : (run w o n c).isFinal = false)
    {effect : Value} {b : Bool} (control : (run w o n c).control = .interpret t effect b)
    (next : (run w o (n + 1) c).control = .start x)
    (ht : Tops (· = .forked x) (run w o n c).stack (run w o (n + 1) c).stack) :
    Hosts w o c (n + 1) (.forked x) (run w o n c).stack := by
  have hstart := next
  rw [run_succ_of_not_isFinal hfin, step_interpret w o control] at hstart
  rcases Machine.ends_or_starts (run w o n c).machine w o t effect b with
    hends | ⟨_, _, fn, args, kwargs, detached, rfl⟩ | ⟨_, _, hp, _⟩
  · exact (not_start_of_ends hends hstart).elim
  · refine .forked (Nat.lt_succ_self n) control next fun i hj hi => ?_
    obtain rfl : i = n + 1 := Nat.le_antisymm hi hj
    exact ht
  · rw [show (ofOutcome _ _).control = _ from hp] at hstart
    cases hstart

/-- A race or gather that interprets its first member has just been put there for its effect. -/
theorem hosts_opened (w : World σ) (o : RunOptions) {n p : Nat} (hs : (run w o n c).Sound begun)
    (hfin : (run w o n c).isFinal = false) {k : Composite} {effect member : Value} {b : Bool}
    (control : (run w o n c).control = .interpret k.task effect b)
    (next : (run w o (n + 1) c).control = .interpret p member true)
    (ht : Tops (· = .composite k) (run w o n c).stack (run w o (n + 1) c).stack) :
    Hosts w o c (n + 1) (.composite k) (run w o n c).stack := by
  have hnext := run_succ_of_not_isFinal (w := w) (o := o) hfin
  have hinterpret := next
  rw [hnext, step_interpret w o control] at hinterpret
  rcases Machine.ends_or_starts (run w o n c).machine w o k.task effect b with
    hends | ⟨_, hx, _⟩ | ⟨_, _, _, race, members, rfl⟩
  · exact (not_interpret_of_ends hends hinterpret).elim
  · rw [show (ofOutcome _ _).control = _ from hx] at hinterpret
    cases hinterpret
  · have hfirst := stands_first hs control fun f hf => by
      rw [← hnext] at hf
      rw [hf] at next
      exact not_interpret_of_ends (Outcome.ends_failure (run w o n c).machine.counted f) next
    refine .composite (Nat.lt_succ_self n) control
      (Stands.hosts (by rwa [Nat.add_sub_cancel_left]) (Nat.le_refl n) next ht) fun i hj hi => ?_
    obtain rfl : i = n + 1 := Nat.le_antisymm hi hj
    exact ht.imp fun f _ hf => ⟨k, hf, rfl⟩

/-- A race or gather that goes on to its next member still stands for its effect. -/
theorem Hosts.grown {n p : Nat} {k k' : Composite} {below : List Frame} {member : Value}
    (h : Hosts w o c n (.composite k) below) (hs : c.Sound begun)
    (stack : (run w o n c).stack = .composite k :: below) (control : (run w o n c).control = .done)
    (task : k'.task = k.task) (next : (run w o (n + 1) c).control = .interpret p member true)
    (ht : Tops (· = .composite k') below (run w o (n + 1) c).stack) :
    Hosts w o c (n + 1) (.composite k') below := by
  cases h with
  | @composite j _ race members b before asked collects since =>
    obtain ⟨_, _, hsj⟩ := sound_run w o hs j
    have hrun : run w o (n - j) (run w o j c) = run w o n c := by
      rw [← run_add, Nat.add_sub_cancel' (Nat.le_of_lt before)]
    have hstands : Stands w o (run w o j c) k.task race members (n - j) := by
      refine ⟨k, collects, ?_⟩
      rw [hrun, stack]
      exact .top rfl
    have hgoes := hstands.step hsj fun f hf => by
      rw [hrun, control] at hf
      cases hf
    rw [← Nat.sub_add_comm (Nat.le_of_lt before)] at hgoes
    have hcollects := Stands.hosts hgoes (Nat.le_of_lt before) next ht
    rw [← task] at asked hcollects
    refine .composite (Nat.lt_succ_of_lt before) asked hcollects fun i hj hi => ?_
    rw [task]
    rcases Nat.lt_or_eq_of_le hi with hi | rfl
    · exact since i hj (Nat.le_of_lt_succ hi)
    · exact ht.imp fun f _ hf => ⟨k', hf, task⟩

/-- **Forks and composites stand for effects that are still being interpreted.** -/
theorem hosts_run (w : World σ) (o : RunOptions) (hc : c.Underway)
    (hbare : ∀ f ∈ c.stack, f.wards = [])
    (n : Nat) {f : Frame} {below : List Frame} (ht : Tops (· = f) below (run w o n c).stack)
    (hwards : f.wards ≠ []) : Hosts w o c n f below := by
  induction n generalizing f below with
  | zero =>
    obtain ⟨_, hf, rfl⟩ := ht.exists_mem
    exact (hwards (hbare _ hf)).elim
  | succ n ih =>
    cases hfin : (run w o n c).isFinal with
    | true =>
      have hsame : run w o (n + 1) c = run w o n c := by rw [run_succ, if_pos hfin]
      exact (ih (hsame ▸ ht) hwards).succ ht
    | false =>
      obtain ⟨begun, hs⟩ := hc.sound
      obtain ⟨_, _, hsn⟩ := sound_run w o hs n
      have hturn := turn_step w o hsn
      rw [← run_succ_of_not_isFinal hfin] at hturn
      rcases hturn.tops_before ht with hbefore | ⟨_, rfl, hpush⟩
      · exact (ih hbefore hwards).succ ht
      cases hpush with
      | resumed _ => exact (hwards rfl).elim
      | member _ => exact (hwards rfl).elim
      | looped wards _ => exact (hwards wards).elim
      | forked control next _ _ => exact hosts_forked w o hfin control next ht
      | opened control _ next => exact hosts_opened w o hsn hfin control next ht
      | @grown k _ _ _ stack control task members next =>
        have hmembers : k.members ≠ [] := by
          have hlineage := (hc.run w o n fun f hf => by rw [control] at hf; cases hf).lineal.stack
          rw [stack] at hlineage
          exact hlineage.fits.opened k rfl
        have htop : Tops (· = .composite k) below (run w o n c).stack := by
          rw [stack]
          exact .top rfl
        exact (ih htop hmembers).grown hs stack control task next ht

/-! ### The chain of running tasks -/

/-- Task `y` has started `x` at once: by a fork, or as a member of a race or gather, which after `n`
steps of the run from `c` is still being interpreted. -/
inductive StartedEagerly (w : World σ) (o : RunOptions) (c : Config σ) (n x y : Nat) : Prop
  | forked {j : Nat} {fn : Value} {args : List Value}
      {kwargs : List (String × Value)} {detached b : Bool}
      (before : j < n)
      (asked : (run w o j c).control = .interpret y (.effect (.fork fn args kwargs detached)) b)
      (started : (run w o (j + 1) c).control = .start x)
      (since : ∀ i, j < i → i ≤ n → Tops (· = .forked x) (run w o j c).stack (run w o i c).stack)
  | member {j : Nat} {race : Bool} {members : Members} {b : Bool} {member : Value} (before : j < n)
      (asked : (run w o j c).control = .interpret y (.effect (.ofMembers race members)) b)
      (listed : member ∈ members.values) (started : Asks w o (run w o j c) y (n - j) member x)
      (since : ∀ i, j < i → i ≤ n →
        Tops (fun f => ∃ k, f = .composite k ∧ k.task = y) (run w o j c).stack (run w o i c).stack)

/-- The placeholder of a composite has been given a member to interpret. -/
theorem Collects.exists_asked {race : Bool} {members : Members} {k : Composite}
    (h : Collects w o c t race members n k) {p : Nat} (hp : p ∈ k.members) :
    ∃ member ∈ members.values, Asks w o c t n member p := by
  obtain ⟨seen, hitems, hseen⟩ := h.seen
  obtain ⟨e, he, rfl⟩ := List.mem_map.mp hp
  obtain ⟨i, hi, rfl⟩ := List.getElem_of_mem he
  have hi' : i < seen.length := hseen.length_eq ▸ hi
  obtain ⟨_, hasked⟩ := hseen.get hi' hi
  refine ⟨seen[i].2, ?_, hasked⟩
  rw [← Machine.values_memberItems, hitems]
  exact List.mem_map_of_mem (List.mem_append_left _ (List.getElem_mem hi'))

theorem startedEagerly_of_seated (w : World σ) (o : RunOptions) (hc : c.Underway)
    (hbare : ∀ f ∈ c.stack, f.wards = []) {x y : Nat} {g h : Frame} {under : List Frame}
    (ht : Tops (· = g) (h :: under) (run w o n c).stack) (hy : h.runner? = some y)
    (hg : g = .forked x ∨ ∃ k, g = .composite k ∧ k.task = y ∧ x ∈ k.members) :
    StartedEagerly w o c n x y := by
  have hwards : x ∈ g.wards := by
    rcases hg with rfl | ⟨k, rfl, _, hx⟩
    · exact List.mem_singleton.mpr rfl
    · exact hx
  have hhosts := hosts_run w o hc hbare n ht (List.ne_nil_of_mem hwards)
  generalize hbelow : h :: under = below at hhosts
  cases hhosts with
  | @forked j _ y' _ _ _ _ _ before asked started since =>
    rcases hg with hg | ⟨_, hg, _⟩
    · cases hg
      obtain ⟨begun, hs⟩ := hc.sound
      obtain ⟨_, _, hsj⟩ := sound_run w o hs j
      obtain ⟨f, below, hstack, hf⟩ := exists_frame_of_interpret hsj asked
      rw [hstack] at hbelow
      cases hbelow
      obtain rfl : y' = y := Option.some.inj (hf.symm.trans hy)
      exact .forked before asked started since
    · cases hg
  | composite before asked collects since =>
    rcases hg with hg | ⟨k, hg, rfl, hx⟩
    · cases hg
    · cases hg
      obtain ⟨member, hmember, hasked⟩ := collects.exists_asked hx
      exact .member before asked hmember hasked since

/-- **The running tasks are a chain**: each has been started by the next one down the stack. -/
theorem isChain_runners (w : World σ) (o : RunOptions) (hc : c.Underway)
    (hbare : ∀ f ∈ c.stack, f.wards = []) (n : Nat) :
    (runners (run w o n c).stack).IsChain (StartedEagerly w o c n) := by
  -- by induction on the lower parts of the stack
  have hchain :
      ∀ stack, (∀ {f below}, Tops (· = f) below stack → Tops (· = f) below (run w o n c).stack) →
      (runners stack).IsChain (StartedEagerly w o c n) := by
    intro stack
    induction stack with
    | nil => exact fun _ => .nil
    | cons f below ih =>
      intro hsub
      have hbelow := ih fun ht => hsub (.under ht)
      cases hf : f.runner? with
      | none =>
        have hrun : runners (f :: below) = runners below := by
          simp only [runners, List.filterMap_cons, hf]
        rwa [hrun]
      | some x =>
        have hrun : runners (f :: below) = x :: runners below := by
          simp only [runners, List.filterMap_cons, hf]
        rw [hrun]
        rcases seated_run w o hc n (hsub (.top rfl)) x hf with hnone | ⟨g, h, under, y, rfl, hy, hg⟩
        · rw [hnone]
          exact .singleton x
        · have hstarted := startedEagerly_of_seated w o hc hbare (hsub (.under (.top rfl))) hy hg
          have hidle : g.runner? = none := by rcases hg with rfl | ⟨_, rfl, _⟩ <;> rfl
          have hrest : runners (g :: h :: under) = y :: runners under := by
            simp only [runners, List.filterMap_cons, hidle, hy]
          rw [hrest] at hbelow ⊢
          exact .cons_cons hstarted hbelow
  exact hchain _ id

end Config

/-- A run that is given up takes frames off, at most, apart from that of the task it resumes. -/
theorem Turn.stack_of_abort {c c' : Config σ} {f : Failure} (turn : Turn o c c')
    (h : c'.control = .abort f) :
    c'.stack.Sublist c.stack ∨
      ∃ t s below, Resumes c.stack c.control t s below ∧ c'.stack = .driving t :: below := by
  cases turn with
  | dies resumes _ => exact Or.inr ⟨_, _, _, resumes, rfl⟩
  | refuses _ _ _ _ _ => exact Or.inl (List.Sublist.refl _)
  | condemns _ _ _ => exact Or.inl (List.sublist_cons_self ..)
  | rethrows _ _ _ _ => exact Or.inl (List.sublist_cons_self ..)
  | starts _ _ _ => exact Or.inl (List.Sublist.refl _)
  | surfaces _ _ _ _ _ => exact Or.inl (List.Sublist.refl _)
  | balks _ => exact Or.inl (List.Sublist.refl _)
  | stops _ _ => exact Or.inl (List.Sublist.refl _)
  | unwinds _ _ => exact Or.inl (List.tail_sublist _)
  | runs _ _ _ => exact Or.inl (List.Sublist.refl _)
  | climbs _ _ _ _ => exact Or.inl (List.Sublist.refl _)
  | picks _ _ _ leads => rcases leads with rfl | rfl <;> cases h
  | _ => cases h

namespace Config

variable {c : Config σ}

/-- **No task has two frames**, also while the run is given up. -/
theorem nodup_runners (w : World σ) (o : RunOptions) (hc : c.Underway) (n : Nat) :
    (runners (run w o n c).stack).Nodup := by
  have hlive : ∀ n, (∀ f, (run w o n c).control ≠ .abort f) →
      (runners (run w o n c).stack).Nodup := by
    intro n live
    obtain ⟨begun, hs⟩ := (hc.run w o n live).sound
    rcases Sound.on_stack hs live with ⟨_, _, core, _⟩ | ⟨root, hstack⟩ | hstack
    · exact core.alone
    · rw [hstack]
      exact .nil
    · rw [hstack]
      exact .nil
  induction n with
  | zero => exact hlive 0 hc.live
  | succ n ih =>
    by_cases live : ∀ f, (run w o (n + 1) c).control ≠ .abort f
    · exact hlive _ live
    simp only [not_forall, not_not] at live
    obtain ⟨failure, hf⟩ := live
    cases hfin : (run w o n c).isFinal with
    | true =>
      rw [run_succ, if_pos hfin]
      exact ih
    | false =>
      obtain ⟨begun, hs⟩ := hc.sound
      obtain ⟨_, _, hsn⟩ := sound_run w o hs n
      rw [run_succ_of_not_isFinal hfin] at hf ⊢
      rcases (turn_step w o hsn).stack_of_abort hf with hsub | ⟨t, s, below, resumes, hstack⟩
      · exact ih.sublist (hsub.filterMap _)
      · rw [hstack, runners_driving, List.nodup_cons]
        exact ⟨resumes.not_mem_runners hsn, ih.sublist (resumes.sublist.filterMap _)⟩

/-! ### Who runs -/

/-- A task that is about to be driven has not been running. -/
theorem idle_of_drive (w : World σ) (o : RunOptions) (hc : c.Sound begun) {s : Signal}
    (h : (c.step w o).control = .drive t s) :
    ∃ u, (c.step w o).machine.registry.get? t = some u ∧ u.running = false := by
  have hmoves := moves_step w o c
  have hturn := turn_step w o hc
  have hidle : ∀ {u}, c.machine.registry.get? t = some u → u.running = false →
      (∀ s, c.control ≠ .drive t s) →
      ∃ u, (c.step w o).machine.registry.get? t = some u ∧ u.running = false := by
    intro u hu hr hn
    obtain ⟨u', hu', onward, _⟩ := hmoves.kept hu
    refine ⟨u', hu', ?_⟩
    by_contra hr'
    rcases onward.running (by simpa using hr') with hrun | ⟨s, hs⟩
    · exact Bool.false_ne_true (hr.symm.trans hrun)
    · exact hn s hs
  generalize hstep : c.step w o = c' at h hturn hidle ⊢
  cases hturn with
  | runs _ _ leads =>
    cases hc with
    | selected _ _ task ready =>
      rcases leads with rfl | ⟨_, rfl⟩ | ⟨_, rfl⟩ | rfl <;> cases h
      rcases ready with ⟨fresh, _⟩ | ⟨_, _, ready⟩
      · exact hidle task fresh.running nofun
      · exact hidle task ready.running nofun
  | starts _ _ leads =>
    cases hc with
    | starting _ _ task fresh _ =>
      rcases leads with rfl | rfl | ⟨_, _, rfl⟩ | ⟨_, rfl⟩ <;> cases h
      exact hidle task fresh.running nofun
  | climbs _ _ heeds leads =>
    obtain rfl := h
    split at leads <;> cases leads
    exact hidle heeds.owner heeds.idle nofun
  | @enters m m' p below g =>
    cases h
    cases hc with
    | answered core nested _ =>
      obtain ⟨u, hu, _, _⟩ := core.runner (List.mem_cons_self ..)
      have hm' : (deliver w o m (.enter g) (.member t :: below)).machine = m' :=
        congrArg Config.machine hstep
      rw [← hm']
      exact ⟨_, Registry.get?_modify_of_eq_some _ (Registry.get?_modify_of_eq_some _ hu), rfl⟩
  | refuses _ _ _ _ f => exact (f.control_ne_drive s h).elim
  | @condemns _ _ _ _ e _ => exact (Failure.control_ne_drive (.exn e) s h).elim
  | @rethrows _ _ _ _ e _ _ _ => exact (Failure.control_ne_drive (.exn e) s h).elim
  | picks _ _ _ leads => rcases leads with rfl | rfl <;> cases h
  | _ => cases h

end Config

end Rehearsal
