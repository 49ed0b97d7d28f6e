import Rehearsal.Proofs.Engine.Lifetimes
import Rehearsal.Proofs.Engine.Gathering

/-!
# Nothing is re-entered

A coroutine and the scheduler take turns. The coroutine yields an effect, which is interpreted while
the frame of its task stands on the stack; then the task goes on with the answer at once, or sleeps
until what it is blocked behind has been settled or a child has failed. Whatever else goes on
meanwhile, however deep and for whomever, does not resume it: so a coroutine that is resumed is told
what has become of the effect that it yielded last.
-/
namespace Rehearsal

variable {σ : Type} {begun : Nat → Prop} {t : Nat} {w : World σ} {o : RunOptions}

/-- `i'` is what rounds have made of the interruption `i`. -/
inductive Interruption.Settles (i : Interruption) : Interruption → Prop
  | refl : Settles i i
  | round {i' i'' : Interruption} {r r' : Registry} {t : Nat} {ids : List Nat}
      {ok : Bool} (h : Settles i i')
      (unanswered : i'.answer = none) (settled : r.settle t i' ids = .ok (ok, i'', r')) :
      Settles i i''

namespace Config

variable {c : Config σ} {j n : Nat}

theorem lasting_settles (i : Interruption) : Lasting fun _ => i.Settles where
  keeps := fun _ h => h
  settles := fun hn he h => h.round hn he

/-- The effect of the task whose frame is on top of `stack` has been interpreted: it is answered, or
raises. -/
def Reports (c : Config σ) (stack : List Frame) : Prop :=
  c.stack = stack ∧ ((∃ a, c.control = .answer a) ∨ ∃ e, c.control = .raised e)

/-- After `j` steps of the run from `c` task `t` has yielded an effect, and its interpretation has
not come to its end in less than `n`. -/
structure Interprets (w : World σ) (o : RunOptions) (c : Config σ) (t j n : Nat) : Prop where
  before : j ≤ n
  yielded : ∃ effect, (run w o j c).control = .interpret t effect false
  unreported : ∀ i, j ≤ i → i < n → ¬ (run w o i c).Reports (run w o j c).stack

/-- What task `t` is resumed with after `n` steps is what has become of the effect it yielded after
`j`: the answer or the exception that its interpretation ended in, or what it was blocked behind
until then has been settled or is dropped for the failure of a child. -/
inductive Answers (w : World σ) (o : RunOptions) (c : Config σ) (t j : Nat) : Nat → Signal → Prop
  | advanced {n : Nat} {v : Value} (interprets : Interprets w o c t j n)
      (back : (run w o n c).stack = (run w o j c).stack)
      (control : (run w o n c).control = .answer (.advance v)) :
      Answers w o c t j n (.send v)
  | entered {n g : Nat} (interprets : Interprets w o c t j n)
      (back : (run w o n c).stack = (run w o j c).stack)
      (control : (run w o n c).control = .answer (.enter g)) :
      Answers w o c t j n (.send .null)
  | raised {n : Nat} {e : Exn} (interprets : Interprets w o c t j n)
      (back : (run w o n c).stack = (run w o j c).stack)
      (control : (run w o n c).control = .raised e) :
      Answers w o c t j n (.throw e)
  | awaited {k n : Nat} {i i' : Interruption} {co : Option Coroutine} {s : Signal}
      (interprets : Interprets w o c t j k) (back : (run w o k c).stack = (run w o j c).stack)
      (blocked : (run w o k c).control = .answer (.block i)) (before : k < n)
      (asleep : ∀ l, k < l → l < n → ∃ i', (run w o l c).Sleeps (fun _ => i.Settles) t co i')
      (latest : (run w o n c).Sleeps (fun _ => i.Settles) t co i')
      (wakes : (run w o n c).Wakes t i' s) :
      Answers w o c t j (n + 1) s

/-! ### While an effect is interpreted -/

/-- The effect that a coroutine yields comes with the frame of its task. -/
theorem stack_of_yield (hc : c.Underway) (hfirst : ∀ effect, c.control ≠ .interpret t effect false)
    {effect : Value} (h : (run w o n c).control = .interpret t effect false) :
    ∃ below, (run w o n c).stack = .driving t :: below := by
  induction n with
  | zero => exact (hfirst effect h).elim
  | succ n ih =>
    cases hfin : (run w o n c).isFinal with
    | true =>
      have hsame : run w o (n + 1) c = run w o n c := by rw [run_succ, if_pos hfin]
      rw [hsame] at h ⊢
      exact ih h
    | false =>
      obtain ⟨begun, hs⟩ := hc.sound
      obtain ⟨_, _, hsn⟩ := sound_run w o hs n
      rw [run_succ_of_not_isFinal hfin] at h ⊢
      obtain ⟨_, below, _, hstack⟩ := (turn_step w o hsn).yields_inv h
      exact ⟨below, hstack⟩

/-- Until its effect has been interpreted the frame of the task stands. -/
theorem Interprets.stands (h : Interprets w o c t j n) (hc : c.Underway)
    (hfirst : ∀ effect, c.control ≠ .interpret t effect false)
    (live : ∀ f, (run w o n c).control ≠ .abort f) :
    ∃ below, (run w o j c).stack = .driving t :: below ∧
      Tops (· = .driving t) below (run w o n c).stack := by
  obtain ⟨effect, hyield⟩ := h.yielded
  obtain ⟨below, hstack⟩ := stack_of_yield hc hfirst hyield
  refine ⟨below, hstack, ?_⟩
  obtain ⟨begun, hs⟩ := hc.sound
  have hbefore := h.before
  have hunreported := h.unreported
  clear h
  induction n with
  | zero =>
    obtain rfl := Nat.le_zero.mp hbefore
    rw [hstack]
    exact .top rfl
  | succ n ih =>
    rcases Nat.lt_or_eq_of_le hbefore with hlt | rfl
    · have hlive := fun f => not_abort_of_run w o (Nat.le_succ n) live f
      have htops := ih hlive (Nat.le_of_lt_succ hlt) fun i hj hi =>
        hunreported i hj (Nat.lt_succ_of_lt hi)
      cases hfin : (run w o n c).isFinal with
      | true =>
        rw [run_succ, if_pos hfin]
        exact htops
      | false =>
        obtain ⟨_, _, hsn⟩ := sound_run w o hs n
        rw [run_succ_of_not_isFinal hfin]
        refine ((turn_step w o hsn).tops_stay hlive htops).resolve_right ?_
        rintro ⟨_, rfl, htop, hat⟩
        refine hunreported n (Nat.le_of_lt_succ hlt) (Nat.lt_succ_self n)
          ⟨htop.trans hstack.symm, ?_⟩
        refine hat.resolve_left fun hdone => ?_
        have hsn' : Rehearsal.Sound _ (run w o n c).machine.registry (run w o n c).stack
          (run w o n c).control := hsn
        rw [htop, hdone] at hsn'
        cases hsn' with
        | resting _ nested => cases nested
    · rw [hstack]
      exact .top rfl

/-- A task whose effect is being interpreted is resumed by the outcome of that, if at all. -/
theorem Interprets.back (h : Interprets w o c t j n) (hc : c.Underway)
    (hfirst : ∀ effect, c.control ≠ .interpret t effect false) {s : Signal}
    (hr : (run w o n c).resumption? t = some s) :
    (run w o n c).stack = (run w o j c).stack ∧ ∀ s', (run w o n c).control ≠ .drive t s' := by
  obtain ⟨under, resumes⟩ := resumption?_eq_some.mp hr
  obtain ⟨below, hstack, htops⟩ := h.stands hc hfirst resumes.ne_abort
  obtain ⟨begun, hs⟩ := hc.sound
  obtain ⟨_, _, hsn⟩ := sound_run w o hs n
  have haside := resumes.not_mem_runners hsn
  rw [hstack]
  have hmem : ∀ {stack}, Tops (· = .driving t) below stack → t ∈ runners stack := by
    intro stack h
    obtain ⟨_, hmem, rfl⟩ := h.exists_mem
    exact List.mem_filterMap.mpr ⟨_, hmem, rfl⟩
  have hstay : ∀ {under}, (run w o n c).stack = .driving t :: under → t ∉ runners under →
      (run w o n c).stack = .driving t :: below := by
    intro under hunder haside
    rw [hunder] at htops ⊢
    cases htops with
    | top _ => rfl
    | under h => exact (haside (hmem h)).elim
  generalize run w o n c = c' at resumes htops hstay
  obtain ⟨m, stack, control⟩ := c'
  cases resumes with
  | driven _ _ _ => exact (haside (hmem htops)).elim
  | answered _ _ _ => exact ⟨hstay rfl haside, nofun⟩
  | entered _ _ _ => exact ⟨hstay rfl haside, nofun⟩
  | thrown _ _ _ => exact ⟨hstay rfl haside, nofun⟩

/-! ### The course of a dialogue -/

/-- Task `t` is not resumed between the `j`-th step and the `n`-th. -/
def Quiet (w : World σ) (o : RunOptions) (c : Config σ) (t j n : Nat) : Prop :=
  ∀ i, j ≤ i → i < n → (run w o i c).resumption? t = none

theorem Quiet.succ (h : Quiet w o c t j n) (hn : (run w o n c).resumption? t = none) :
    Quiet w o c t j (n + 1) := by
  intro i hj hi
  rcases Nat.lt_or_eq_of_le (Nat.le_of_lt_succ hi) with hi | rfl
  · exact h i hj hi
  · exact hn

/-- How far task `t` has come after `n` steps of the run from `c`. -/
inductive Phase (w : World σ) (o : RunOptions) (c : Config σ) (t n : Nat) : Prop
  | unopened (quiet : Quiet w o c t 0 n) (h : (run w o n c).Unopened t)
  | interpreting {j : Nat} (interprets : Interprets w o c t j n) (quiet : Quiet w o c t j n)
  | sleeping {j k : Nat} {i i' : Interruption} {co : Option Coroutine} (quiet : Quiet w o c t j n)
      (interprets : Interprets w o c t j k) (back : (run w o k c).stack = (run w o j c).stack)
      (blocked : (run w o k c).control = .answer (.block i)) (before : k < n)
      (opened : co.isSome = true)
      (asleep : ∀ l, k < l → l < n → ∃ i', (run w o l c).Sleeps (fun _ => i.Settles) t co i')
      (latest : (run w o n c).Sleeps (fun _ => i.Settles) t co i')
  | waking {j : Nat} {s : Signal} (quiet : Quiet w o c t j n) (before : j < n)
      (answers : Answers w o c t j n s)
      (control : (run w o n c).control = .drive t s)
  | spent (h : (run w o n c).Spent t)

/-- After a resumption the effect that has been yielded is interpreted, or the coroutine is spent.
-/
theorem Phase.after_resumption {s : Signal} (hs : (run w o n c).Sound begun)
    (live : ∀ f, (run w o (n + 1) c).control ≠ .abort f) (hfin : (run w o n c).isFinal = false)
    (hr : (run w o n c).resumption? t = some s) : Phase w o c t (n + 1) := by
  obtain ⟨below, resumes⟩ := resumption?_eq_some.mp hr
  have hturn := turn_step w o hs
  rw [← run_succ_of_not_isFinal hfin] at hturn
  rcases hturn.after_resumption resumes with ⟨effect, _, _, hyield⟩ | ⟨v, hv⟩ | ⟨e, he⟩ | ⟨f, hf⟩
  · exact .interpreting
      ⟨Nat.le_refl _, ⟨effect, hyield⟩, fun i hj hi => (Nat.not_lt_of_le hj hi).elim⟩
      fun i hj hi => (Nat.not_lt_of_le hj hi).elim
  · exact .spent (.returned hv)
  · exact .spent (.escaped he)
  · exact (live f hf).elim

/-- The interpretation goes on, or the task falls asleep. -/
theorem Phase.of_interpreting (hc : c.Underway)
    (hfirst : ∀ effect, c.control ≠ .interpret t effect false)
    (live : ∀ f, (run w o (n + 1) c).control ≠ .abort f) (hfin : (run w o n c).isFinal = false)
    (h : Interprets w o c t j n) (quiet : Quiet w o c t j n)
    (hr : (run w o n c).resumption? t = none) : Phase w o c t (n + 1) := by
  by_cases hreports : (run w o n c).Reports (run w o j c).stack
  case neg =>
    refine .interpreting ⟨Nat.le_succ_of_le h.before, h.yielded, fun i hj hi => ?_⟩ (quiet.succ hr)
    rcases Nat.lt_or_eq_of_le (Nat.le_of_lt_succ hi) with hi | rfl
    · exact h.unreported i hj hi
    · exact hreports
  obtain ⟨begun, hs⟩ := hc.sound
  obtain ⟨_, _, hsn⟩ := sound_run w o hs n
  obtain ⟨effect, hyield⟩ := h.yielded
  obtain ⟨below, hbelow⟩ := stack_of_yield hc hfirst hyield
  obtain ⟨hback, hat⟩ := hreports
  have hstack := hback.trans hbelow
  obtain ⟨i, hi⟩ : ∃ i, (run w o n c).control = .answer (.block i) := by
    rcases hat with ⟨a, ha⟩ | ⟨e, he⟩
    · cases a with
      | block i => exact ⟨i, ha⟩
      | advance v => simp [resumption?, ha, hstack] at hr
      | enter g => simp [resumption?, ha, hstack] at hr
    · simp [resumption?, he, hstack] at hr
  have hopen := open_of_sound hsn fun f => not_abort_of_run w o (Nat.le_succ n) live f
  obtain ⟨u, hu, hsleeps⟩ := sleeps_of_block w o (lasting_settles i) hsn hopen hstack rfl hi .refl
  rw [← run_succ_of_not_isFinal hfin] at hsleeps
  have hco : u.coroutine.isSome = true := by
    have hsn' : Rehearsal.Sound _ (run w o n c).machine.registry (run w o n c).stack
      (run w o n c).control := hsn
    rw [hstack, hi] at hsn'
    cases hsn' with
    | answered core _ _ =>
      obtain ⟨v, hv, hco⟩ := core.frames (.driving t) (List.mem_cons_self ..)
      rw [hu, Option.some.injEq] at hv
      exact hv ▸ hco
  exact .sleeping (quiet.succ hr) h hback hi (Nat.lt_succ_self n) hco
    (fun l hl hln => (Nat.not_lt_of_le hl hln).elim) hsleeps

theorem Phase.succ (hc : c.Underway) (hfirst : ∀ effect, c.control ≠ .interpret t effect false)
    (live : ∀ f, (run w o (n + 1) c).control ≠ .abort f) (hfin : (run w o n c).isFinal = false)
    (h : Phase w o c t n) : Phase w o c t (n + 1) := by
  obtain ⟨begun, hs⟩ := hc.sound
  obtain ⟨_, _, hsn⟩ := sound_run w o hs n
  have hlive := fun f => not_abort_of_run w o (Nat.le_succ n) live f
  have hnext := run_succ_of_not_isFinal hfin
  by_cases hr : (run w o n c).resumption? t = none
  case neg =>
    obtain ⟨s, hr⟩ := Option.ne_none_iff_exists'.mp hr
    exact .after_resumption hsn live hfin hr
  cases h with
  | unopened quiet h => exact .unopened (quiet.succ hr) (hnext ▸ h.step w o hsn hr)
  | interpreting interprets quiet => exact .of_interpreting hc hfirst live hfin interprets quiet hr
  | @sleeping j k i i' co quiet interprets back blocked before opened asleep latest =>
    have hall : ∀ l, k < l → l < n + 1 →
        ∃ i', (run w o l c).Sleeps (fun _ => i.Settles) t co i' := by
      intro l hk hl
      rcases Nat.lt_or_eq_of_le (Nat.le_of_lt_succ hl) with hl | rfl
      · exact asleep l hk hl
      · exact ⟨i', latest⟩
    rcases latest.step w o (lasting_settles i) hsn (open_of_sound hsn hlive) hlive with
      ⟨i'', _, hsleeps⟩ | ⟨s, _, hgoes, hwakes⟩
    · rw [← hnext] at hsleeps
      exact .sleeping (quiet.succ hr) interprets back blocked
        (Nat.lt_succ_of_lt before) opened hall hsleeps
    · rw [← hnext] at hgoes
      exact .waking (quiet.succ hr)
        (Nat.lt_succ_of_lt (Nat.lt_of_le_of_lt interprets.before before))
        (.awaited interprets back blocked before asleep latest hwakes) (hgoes opened)
  | waking _ _ _ control => simp [resumption?, control] at hr
  | spent h => exact .spent (hnext ▸ h.step w o hsn hlive)

/-- The phases of a run, up to a resumption. -/
theorem phase_run (hc : c.Underway) (hfirst : ∀ effect, c.control ≠ .interpret t effect false)
    (hunopened : c.Unopened t) {s : Signal} (hr : (run w o n c).resumption? t = some s)
    {j : Nat} (hj : j ≤ n) :
    Phase w o c t j := by
  obtain ⟨below, resumes⟩ := resumption?_eq_some.mp hr
  induction j with
  | zero => exact .unopened (fun i _ hi => (Nat.not_lt_zero i hi).elim) hunopened
  | succ j ih =>
    refine (ih (Nat.le_of_succ_le hj)).succ hc hfirst (not_abort_of_run w o hj resumes.ne_abort) ?_
    rw [Bool.eq_false_iff]
    intro hf
    have hsame : run w o n c = run w o j c := by
      obtain ⟨d, rfl⟩ := Nat.exists_eq_add_of_le (Nat.le_of_succ_le hj)
      rw [run_add, run_of_isFinal w o d hf]
    rw [hsame] at resumes
    generalize run w o j c = c' at hf resumes
    obtain ⟨m, stack, control⟩ := c'
    cases resumes <;> simp [isFinal] at hf

/-- Whoever is resumed is resumed for the first time, with nothing, or is told what has become of
the effect that it yielded last. -/
theorem answered_of_resumption (hc : c.Underway)
    (hfirst : ∀ effect, c.control ≠ .interpret t effect false)
    (hunopened : c.Unopened t) {s : Signal} (hr : (run w o n c).resumption? t = some s) :
    (s = .send .null ∧ Quiet w o c t 0 n) ∨ ∃ j < n, Answers w o c t j n s ∧ Quiet w o c t j n := by
  obtain ⟨begun, hs⟩ := hc.sound
  obtain ⟨_, _, hsn⟩ := sound_run w o hs n
  cases phase_run hc hfirst hunopened hr (Nat.le_refl n) with
  | unopened quiet h => exact Or.inl ⟨h.signal hsn hr, quiet⟩
  | @interpreting j interprets quiet =>
    obtain ⟨hback, hdrive⟩ := interprets.back hc hfirst hr
    have hbefore : j < n := by
      refine Nat.lt_of_le_of_ne interprets.before ?_
      rintro rfl
      obtain ⟨effect, hyield⟩ := interprets.yielded
      simp [resumption?, hyield] at hr
    refine Or.inr ⟨j, hbefore, ?_, quiet⟩
    obtain ⟨below, resumes⟩ := resumption?_eq_some.mp hr
    generalize hstack : (run w o n c).stack = stack at resumes
    generalize hcontrol : (run w o n c).control = control at resumes
    cases resumes with
    | driven _ s _ => exact (hdrive s hcontrol).elim
    | answered _ _ _ => exact .advanced interprets hback hcontrol
    | entered _ _ _ => exact .entered interprets hback hcontrol
    | thrown _ _ _ => exact .raised interprets hback hcontrol
  | sleeping _ _ _ _ _ _ _ latest =>
    have hnone := latest.reply? hsn
    rw [reply?_of_resumption hr] at hnone
    cases hnone
  | @waking j s' quiet before answers control =>
    obtain rfl : s' = s := by simpa [resumption?, control] using hr
    exact Or.inr ⟨j, before, answers, quiet⟩
  | spent h =>
    rw [h.unresumed hsn] at hr
    cases hr

/-- A task that has not been resumed meanwhile has not yielded meanwhile. -/
theorem Quiet.unyielded (hc : c.Underway) (h : Quiet w o c t j n) {i : Nat}
    (hj : j < i) (hi : i ≤ n)
    (effect : Value) : (run w o i c).control ≠ .interpret t effect false := by
  intro hyield
  obtain ⟨i, rfl⟩ :=
    Nat.exists_eq_succ_of_ne_zero (Nat.ne_of_gt (Nat.lt_of_le_of_lt (Nat.zero_le j) hj))
  cases hfin : (run w o i c).isFinal with
  | true =>
    rw [run_succ, if_pos hfin] at hyield
    simp [isFinal, hyield] at hfin
  | false =>
    obtain ⟨begun, hs⟩ := hc.sound
    obtain ⟨_, _, hsi⟩ := sound_run w o hs i
    rw [run_succ_of_not_isFinal hfin] at hyield
    obtain ⟨s, below, resumes, _⟩ := (turn_step w o hsi).yields_inv hyield
    have hnone := h i (Nat.le_of_lt_succ hj) hi
    rw [resumption?_eq_some.mpr ⟨below, resumes⟩] at hnone
    cases hnone

/-- While a run is under way, those run that have a frame. -/
theorem running_iff (hc : c.Sound begun) (live : ∀ f, c.control ≠ .abort f)
    (hfin : c.isFinal = false)
    (hidle : ∀ {s}, c.control = .drive t s → ∃ u, c.machine.registry.get? t =
      some u ∧ u.running = false)
    {u : Task} (hu : c.machine.registry.get? t = some u) : u.running = true ↔
    t ∈ runners c.stack := by
  obtain ⟨m, stack, control⟩ := c
  have hsubject : ∀ {i v}, Core begun m.registry [] stack (some i) → m.registry.get? i = some v →
      (i = t → v.running = false) → (u.running = true ↔ t ∈ runners stack) := by
    intro i v core hv hr
    by_cases hi : i = t
    · subst hi
      rw [show m.registry.get? i = some u from hu, Option.some.injEq] at hv
      subst hv
      rw [hr rfl]
      exact iff_of_false Bool.false_ne_true (core.aside i rfl)
    · exact core.running hu fun he => hi (Option.some.inj he)
  cases hc with
  | aborted f _ => exact (live f rfl).elim
  | settled _ _ => cases hfin
  | @driving i v _ s core _ task _ =>
    refine hsubject core task ?_
    rintro rfl
    obtain ⟨v', hv', hr⟩ := hidle rfl
    rw [show m.registry.get? i = some v from task, Option.some.injEq] at hv'
    exact hv' ▸ hr
  | selected core _ task ready =>
    refine hsubject core task fun _ => ?_
    rcases ready with ⟨fresh, _⟩ | ⟨_, _, ready⟩
    · exact fresh.running
    · exact ready.running
  | starting core _ task fresh _ => exact hsubject core task fun _ => fresh.running
  | completing _ core _ task _ stopped => exact hsubject core task fun _ => stopped
  | failing _ core _ task _ stopped => exact hsubject core task fun _ => stopped
  | looking core _ => exact core.running_iff hu
  | _ => exact Core.running_iff ‹_› hu

/-- Nothing is re-entered in the run from `c` on. -/
structure NeverReenters (w : World σ) (o : RunOptions) (c : Config σ) : Prop where
  /-- Nobody is about to be driven who is running. -/
  idle : ∀ {n t s}, (run w o n c).control = .drive t s →
    ∃ u, (run w o n c).machine.registry.get? t = some u ∧ u.running = false
  /-- While an effect of a coroutine is being interpreted, the coroutine is not resumed. -/
  unresumed : ∀ {t j n}, Interprets w o c t j n → ¬ (run w o n c).Reports (run w o j c).stack →
    (run w o n c).resumption? t = none
  /-- Those run that have a frame on the stack, until the run is over or given up. -/
  running : ∀ {n t u}, (∀ f, (run w o n c).control ≠ .abort f) → (run w o n c).isFinal = false →
    (run w o n c).machine.registry.get? t = some u →
    (u.running = true ↔ t ∈ runners (run w o n c).stack)
  /-- Their frames are all different, and each of them but the first has been started eagerly by the
  next one down the stack. -/
  chain : ∀ n, (runners (run w o n c).stack).Nodup ∧
    (runners (run w o n c).stack).IsChain (StartedEagerly w o c n)
  /-- What a coroutine is resumed with is the answer to the effect that it yielded last; only the
  first time there is none, and nothing is sent. -/
  answered : ∀ {n t s}, (run w o n c).resumption? t = some s →
    (s = .send .null ∧ ∀ i ≤ n, ∀ effect, (run w o i c).control ≠ .interpret t effect false) ∨
    ∃ j < n, Answers w o c t j n s ∧ Quiet w o c t j n ∧
      ∀ i, j < i → i ≤ n → ∀ effect, (run w o i c).control ≠ .interpret t effect false

theorem unopened_launched (outer : σ) (name : String) (g t : Nat) :
    (launched outer name g).Unopened t where
  undriven := nofun
  first := by
    intro u hu _
    have hlt : t < 1 := Registry.get?_eq_some_lt hu
    obtain rfl := Nat.lt_one_iff.mp hlt
    rfl

end Config

/-- **No re-entrancy.** -/
theorem nothing_is_reentered (w : World σ) (o : RunOptions) (outer : σ) (name : String) (g : Nat) :
    (Config.launched outer name g).NeverReenters w o := by
  have hc := Config.underway_launched outer name g
  have hsound := Config.sound_launched outer name g
  have hfirst : ∀ t effect, (Config.launched outer name g).control ≠ .interpret t effect false :=
    fun _ _ => nofun
  have hbare : ∀ f ∈ (Config.launched outer name g).stack, f.wards = [] := by
    intro f hf
    rcases List.mem_pair.mp hf with rfl | rfl <;> rfl
  have hidle : ∀ {n t s}, (Config.run w o n (Config.launched outer name g)).control = .drive t s →
      ∃ u, (Config.run w o n (Config.launched outer name g)).machine.registry.get? t = some u ∧
        u.running = false := by
    intro n t s h
    cases n with
    | zero =>
      cases h
      exact ⟨_, rfl, rfl⟩
    | succ n =>
      obtain ⟨_, _, hs⟩ := Config.sound_run w o hsound n
      cases hfin : (Config.run w o n (Config.launched outer name g)).isFinal with
      | true =>
        rw [Config.run_succ, if_pos hfin] at h
        simp [Config.isFinal, h] at hfin
      | false =>
        rw [Config.run_succ_of_not_isFinal hfin] at h ⊢
        exact Config.idle_of_drive w o hs h
  constructor
  case idle => exact hidle
  case unresumed =>
    intro t j n h hreports
    by_contra hr
    obtain ⟨s, hr⟩ := Option.ne_none_iff_exists'.mp hr
    obtain ⟨hback, hdrive⟩ := h.back hc (hfirst t) hr
    refine hreports ⟨hback, ?_⟩
    obtain ⟨below, resumes⟩ := Config.resumption?_eq_some.mp hr
    generalize (Config.run w o n (Config.launched outer name g)).control =
      control at hdrive resumes ⊢
    generalize (Config.run w o n (Config.launched outer name g)).stack = stack at resumes
    cases resumes with
    | driven _ s _ => exact (hdrive s rfl).elim
    | answered _ _ _ => exact Or.inl ⟨_, rfl⟩
    | entered _ _ _ => exact Or.inl ⟨_, rfl⟩
    | thrown _ _ _ => exact Or.inr ⟨_, rfl⟩
  case running =>
    intro n t u live hfin hu
    obtain ⟨_, _, hs⟩ := Config.sound_run w o hsound n
    exact Config.running_iff hs live hfin hidle hu
  case chain =>
    exact fun n => ⟨Config.nodup_runners w o hc n, Config.isChain_runners w o hc hbare n⟩
  case answered =>
    intro n t s hr
    rcases Config.answered_of_resumption hc (hfirst t)
      (Config.unopened_launched outer name g t) hr with
      ⟨hs, quiet⟩ | ⟨j, hj, answers, quiet⟩
    · refine Or.inl ⟨hs, fun i hi effect => ?_⟩
      rcases Nat.eq_zero_or_pos i with rfl | hpos
      · exact hfirst t effect
      · exact quiet.unyielded hc hpos hi effect
    · exact Or.inr ⟨j, hj, answers, quiet, fun i hji hi => quiet.unyielded hc hji hi⟩

/-- The root forks a task that races a generator, and joins it. The generator waits for a delay and
returns. -/
def Playbook.nesting : Playbook where
  responses
    | 0 => [.yielded (.effect (.fork .null [] [] true)),
        .yielded (.effect (.join (.listed false [⟨1, "", true⟩])))]
    | 1 => [.yielded (.effect (.race (.listed [.generator 2])))]
    | 2 => [.yielded (.effect (.delay 1)), .returned (.int 7)]
    | _ => []
  plans := [{ CallPlan.real with invoke := false, output := .generator 1 }]

theorem nesting_is_not_reentered :
    runners (Playbook.nesting.played 8).stack = [2, 1, 0] ∧
      Config.StartedEagerly Playbook.world .default
        (Config.launched Playbook.nesting "root" 0) 8 2 1 ∧
      Config.StartedEagerly Playbook.world .default
        (Config.launched Playbook.nesting "root" 0) 8 1 0 ∧
      (Playbook.nesting.played 8).resumption? 0 = none ∧
      ∃ j < 35, Config.Answers Playbook.world .default
        (Config.launched Playbook.nesting "root" 0) 1 j 35
        (.send (.list [.int 7])) := by
  have h := nothing_is_reentered Playbook.world .default Playbook.nesting "root" 0
  have hrunners : runners (Playbook.nesting.played 8).stack = [2, 1, 0] := rfl
  have hchain := (h.chain 8).2
  rw [show Config.run Playbook.world .default 8 _ =
    Playbook.nesting.played 8 from rfl, hrunners] at hchain
  obtain ⟨hmember, hrest⟩ := List.isChain_cons_cons.mp hchain
  obtain ⟨hfork, _⟩ := List.isChain_cons_cons.mp hrest
  refine ⟨hrunners, hmember, hfork, ?_, ?_⟩
  · refine h.unresumed (t := 0) (j := 1) (n := 8) ⟨by decide, ⟨_, rfl⟩, fun i hj hi => ?_⟩ ?_
    · rintro ⟨hstack, hat⟩
      interval_cases i <;> cases hstack
      rcases hat with ⟨_, hat⟩ | ⟨_, hat⟩ <;> cases hat
    · rintro ⟨hstack, _⟩
      cases hstack
  · have hresumed : (Playbook.nesting.played 35).resumption? 1 = some (.send (.list [.int 7])) :=
      rfl
    rcases h.answered (n := 35) (t := 1) hresumed with ⟨hs, _⟩ | ⟨j, hj, answers, _⟩
    · cases hs
    · exact ⟨j, hj, answers⟩

end Rehearsal
