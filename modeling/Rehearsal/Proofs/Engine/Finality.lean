import Rehearsal.Proofs.Engine.Finishing

/-!
# A task starts, ends and is reaped once

Only a task that is not over can end, so it ends once, is moved to the buffer of finished tasks once
and is reaped with it once. Of a task that is over nothing is written any more but two flags: no
step works on it, and while a run is given up the frames on the stack belong to tasks that are not
over.
-/
namespace Rehearsal

variable {σ : Type} {begun : Nat → Prop} {t : Nat} {u : Task} {w : World σ} {o : RunOptions}

/-- Nothing is reaped but by the main loop. -/
theorem Failure.control_ne_bubble (f : Failure) (ids : List Nat) : f.control ≠ .bubble ids := by
  cases f with
  | exn e =>
    unfold control
    dsimp only
    split <;> exact nofun
  | harness _ => exact nofun

namespace Turn

variable {c c' : Config σ}

/-- What is handed to a round is the buffer of finished tasks, which is emptied. -/
theorem bubble_inv {ids : List Nat} (turn : Turn o c c') (h : c'.control = .bubble ids) :
    ids = c.machine.registry.finished := by
  cases turn with
  | bubbles _ _ _ =>
    cases h
    rfl
  | refuses _ _ _ _ f => exact (f.control_ne_bubble ids h).elim
  | @condemns _ _ _ _ e _ => exact (Failure.control_ne_bubble (.exn e) ids h).elim
  | @rethrows _ _ _ _ e _ _ _ => exact (Failure.control_ne_bubble (.exn e) ids h).elim
  | runs _ _ leads =>
    obtain rfl := h
    rcases leads with h | ⟨_, h⟩ | ⟨_, h⟩ | h <;> cases h
  | starts _ _ leads =>
    obtain rfl := h
    rcases leads with h | h | ⟨_, _, h⟩ | ⟨_, h⟩ <;> cases h
  | climbs _ _ _ leads =>
    obtain rfl := h
    split at leads <;> cases leads
  | picks _ _ _ leads =>
    obtain rfl := h
    rcases leads with h | h <;> cases h
  | _ => cases h

/-- When a run is given up, the stack still drives whom it drove, and the task just resumed. -/
theorem runners_of_abort {f : Failure} (turn : Turn o c c') (h : c'.control = .abort f) {i : Nat}
    (hi : i ∈ runners c'.stack) : i ∈ runners c.stack ∨ ∃ s, c.resumption? i = some s := by
  obtain ⟨g, hg, hgi⟩ := List.mem_filterMap.mp hi
  obtain ⟨below, htops⟩ := Tops.of_mem (P := fun g => g.runner? = some i) hg hgi
  rcases turn.tops_before htops with htops | ⟨g, hgi, hpush⟩
  · obtain ⟨g, hg, hgi⟩ := htops.exists_mem
    exact Or.inl (List.mem_filterMap.mpr ⟨g, hg, hgi⟩)
  · cases hpush with
    | resumed resumes =>
      obtain rfl := Option.some.inj hgi
      exact Or.inr ⟨_, Config.resumption?_eq_some.mpr ⟨_, resumes⟩⟩
    | member next =>
      rw [h] at next
      cases next
    | looped _ idle =>
      rw [idle] at hgi
      cases hgi
    | _ => cases hgi

end Turn

namespace Config

/-! ### Only what is not over can end -/

theorem unfinished_of_finalizes {c : Config σ} (hc : c.Sound begun) (h : c.Finalizes w o t) :
    ∃ u, c.machine.registry.get? t = some u ∧ u.done = false := by
  obtain ⟨u, hu, h⟩ := h
  refine ⟨u, hu, ?_⟩
  have honly : ∀ {v}, c.machine.registry.get? t = some v → v.done = false → u.done = false := by
    intro v hv hd
    rw [hu, Option.some.injEq] at hv
    exact hv ▸ hd
  obtain ⟨m, stack, control⟩ := c
  cases hc with
  | completing _ _ _ task free _ =>
    obtain ⟨rfl, _⟩ := h
    exact honly task free.done
  | failing _ _ _ task free _ =>
    obtain ⟨rfl, _⟩ := h
    exact honly task free.done
  | starting _ _ task fresh _ =>
    obtain ⟨rfl, _⟩ := h
    exact honly task fresh.done
  | selected _ _ task ready =>
    obtain ⟨rfl, _⟩ := h
    rcases ready with ⟨fresh, _⟩ | ⟨_, _, ready⟩
    · exact honly task fresh.done
    · exact honly task ready.done
  | _ => exact h.elim

/-- A step that finalizes a task does not give up the run. -/
theorem not_abort_of_finalizes {c : Config σ} (hc : c.Sound begun)
    (h : c.Finalizes w o t) (f : Failure) :
    (c.step w o).control ≠ .abort f := by
  obtain ⟨u, hu, h⟩ := h
  obtain ⟨m, stack, control⟩ := c
  cases control with
  | complete i v => exact nofun
  | fail i e =>
    obtain ⟨m', he, _⟩ := step_fail w o hc
    rw [he]
    exact nofun
  | start i =>
    rw [h.2.1]
    exact nofun
  | runTask i =>
    obtain ⟨rfl, ⟨kind, pending, dependencies, answer⟩, hi, rfl, hans⟩ := h
    have hget : m.get? i = some u := hu
    show (runTask m stack i).control ≠ _
    rcases hans with ⟨v, rfl⟩ | ⟨e, rfl⟩ <;> simp [runTask, hget, hi, halt]
  | _ => exact h.elim

/-- Nor is the run over before it. -/
theorem not_isFinal_of_finalizes {c : Config σ} (h : c.Finalizes w o t) : c.isFinal = false := by
  obtain ⟨_, _, h⟩ := h
  obtain ⟨m, stack, control⟩ := c
  cases control with
  | done => exact h.elim
  | raised _ => exact h.elim
  | abort _ => exact h.elim
  | _ => simp [isFinal]

/-! ### What is over stays as it is -/

def Open (c : Config σ) : Prop := ∀ i ∈ runners c.stack, c.machine.registry.Unfinished i

theorem open_of_sound {c : Config σ} (hc : c.Sound begun) (live : ∀ f, c.control ≠ .abort f) :
    c.Open := by
  intro i hi
  rcases Sound.on_stack hc live with ⟨subject, who, core, _⟩ | ⟨root, hstack⟩ | hstack
  · obtain ⟨u, hu, _, free⟩ := core.runner hi
    exact ⟨u, hu, free.done⟩
  · rw [hstack] at hi
    cases hi
  · rw [hstack] at hi
    cases hi

theorem open_step (w : World σ) (o : RunOptions) {c : Config σ} (hc : c.Sound begun) (h : c.Open) :
    (c.step w o).Open := by
  by_cases live : ∀ f, (c.step w o).control ≠ .abort f
  · exact open_of_sound (sound_step w o hc) live
  · simp only [not_forall, not_not] at live
    obtain ⟨f, hf⟩ := live
    intro i hi
    have hbefore : c.machine.registry.Unfinished i := by
      rcases (turn_step w o hc).runners_of_abort hf hi with hi | ⟨s, hs⟩
      · exact h i hi
      · obtain ⟨u, hu, free⟩ := free_of_resumption hc hs
        exact ⟨u, hu, free.done⟩
    obtain ⟨u, hu, hd⟩ := hbefore
    obtain ⟨u', hu', _⟩ := (amends_step w o c).kept hu
    refine ⟨u', hu', ?_⟩
    by_contra hdone
    rw [Bool.not_eq_false, ← Registry.isDone_of_eq_some hu', isDone_step_iff w o hc hu hd] at hdone
    exact not_abort_of_finalizes hc hdone f hf

/-- The only task that is over and comes to be worked on has its turn in a round. -/
theorem works_done {c : Config σ} (hc : c.Sound begun) (hopen : c.Open)
    (hu : c.machine.registry.get? t = some u) (hd : u.done = true) (hw : c.footprint.works t) :
    c.control = .done ∧ ∃ ids rest below, c.stack = .round ids (t :: rest) :: below := by
  obtain ⟨m, stack, control⟩ := c
  have hsubject : ∀ {v}, m.registry.get? t = some v → v.done = false → False := by
    intro v hv hopen
    rw [show m.registry.get? t = some u from hu, Option.some.injEq] at hv
    exact Bool.false_ne_true (hopen.symm.trans (hv ▸ hd))
  have hframe : ∀ {f below}, stack = f :: below → f.runner? = some t → False := by
    rintro f below rfl hf
    obtain ⟨v, hv, hvd⟩ := hopen t (List.mem_filterMap.mpr ⟨f, List.mem_cons_self .., hf⟩)
    exact hsubject hv hvd
  cases hc with
  | looking _ _ => exact hw.elim
  | settled _ _ => exact hw.elim
  | interpreting _ _ _ _ => exact hw.elim
  | bubbling _ _ _ => exact hw.elim
  | driving _ _ task poised =>
    obtain rfl : t = _ := hw
    exact (hsubject task poised.done).elim
  | starting _ _ task fresh _ =>
    obtain rfl : t = _ := hw
    exact (hsubject task fresh.done).elim
  | completing _ _ _ task free _ =>
    obtain rfl : t = _ := hw
    exact (hsubject task free.done).elim
  | failing _ _ _ task free _ =>
    obtain rfl : t = _ := hw
    exact (hsubject task free.done).elim
  | selected _ _ task ready =>
    obtain rfl : t = _ := hw
    rcases ready with ⟨fresh, _⟩ | ⟨_, _, ready⟩
    · exact (hsubject task fresh.done).elim
    · exact (hsubject task ready.done).elim
  | aborted f _ =>
    cases stack with
    | nil => exact hw.elim
    | cons f below => exact (hframe rfl hw).elim
  | raised e core nested =>
    obtain ⟨f, below, rfl, _⟩ := nested.inv_some
    exact (hframe rfl hw).elim
  | answered core nested stands =>
    obtain ⟨f, below, rfl, _⟩ := nested.inv_some
    exact (hframe rfl hw).elim
  | propagating e core nested task parent =>
    obtain ⟨v, hv, hp⟩ := hw
    rw [show m.registry.get? _ = some v from hv, Option.some.injEq] at task
    obtain ⟨up, hup, hpd, _⟩ := parent t (task ▸ hp)
    exact (hsubject hup hpd).elim
  | resting core nested =>
    cases nested with
    | batch _ _ => exact hw.elim
    | forked _ _ => exact hw.elim
    | composite _ _ => exact hw.elim
    | round ids rest root =>
      cases rest with
      | nil => exact hw.elim
      | cons x rest =>
        obtain rfl : t = x := hw
        exact ⟨rfl, ids, rest, _, rfl⟩

/-- **Of a task that is over a step changes nothing but its flags.** -/
theorem final_step (w : World σ) (o : RunOptions) {c : Config σ}
    (hc : c.Sound begun) (hopen : c.Open)
    (hu : c.machine.registry.get? t = some u) (hd : u.done = true) :
    ∃ a b, (c.step w o).machine.registry.get? t = some (u.flag a b) := by
  by_cases hw : c.footprint.works t
  · obtain ⟨m, stack, control⟩ := c
    obtain ⟨hcontrol, ids, rest, below, hstack⟩ := works_done hc hopen hu hd hw
    obtain rfl : control = .done := hcontrol
    obtain rfl : stack = .round ids (t :: rest) :: below := hstack
    have hget : m.get? t = some u := hu
    have hpass : continueRound m below ids (t :: rest) = halt m (.round ids rest :: below) := by
      unfold continueRound
      simp only [hget, hd, if_true]
    refine ⟨false, false, ?_⟩
    rw [Task.flag_false]
    show (continueRound m below ids (t :: rest)).machine.registry.get? t = some u
    rw [hpass]
    exact hu
  · have hn : ¬ c.licence.works t := by
      rintro (h | hle)
      · exact hw h
      · exact Nat.lt_irrefl _ (Nat.lt_of_lt_of_le (Registry.get?_eq_some_lt hu) hle)
    obtain ⟨a, b, cs, hu'⟩ := (amends_step w o c).unworked hn hu
    have hcs : cs = [] := ((sound_step w o hc).forest.ended hu' hd).1
    have hsame : { u.flag a b with children := cs } = u.flag a b := by
      rw [hcs, ← (Sound.forest hc).ended hu hd |>.1]
      rfl
    exact ⟨a, b, hsame ▸ hu'⟩

/-! ### Runs -/

variable {c : Config σ}

theorem open_run (w : World σ) (o : RunOptions) (hc : c.Sound begun) (h : c.Open) (n : Nat) :
    (run w o n c).Open := by
  induction n with
  | zero => exact h
  | succ n ih =>
    obtain ⟨_, _, hs⟩ := sound_run w o hc n
    rw [run_succ]
    split
    · exact ih
    · exact open_step w o hs ih

/-- What is over changes in its flags only, as long as the run goes on. -/
theorem final_run (w : World σ) (o : RunOptions) (hc : c.Sound begun) (h : c.Open) {k n : Nat}
    (hkn : k ≤ n) (hu : (run w o k c).machine.registry.get? t = some u) (hd : u.done = true) :
    ∃ a b, (run w o n c).machine.registry.get? t = some (u.flag a b) := by
  obtain ⟨n, rfl⟩ := Nat.exists_eq_add_of_le hkn
  induction n with
  | zero => exact ⟨false, false, by rw [Task.flag_false]; exact hu⟩
  | succ n ih =>
    obtain ⟨a, b, hn⟩ := ih (Nat.le_add_right k n)
    obtain ⟨_, _, hs⟩ := sound_run w o hc (k + n)
    rw [← Nat.add_assoc, run_succ]
    split
    · exact ⟨a, b, hn⟩
    · obtain ⟨a', b', hn'⟩ := final_step w o hs (open_run w o hc h (k + n)) hn hd
      exact ⟨a || a', b || b', by rw [hn', Task.flag_flag]⟩

/-- Over, and no longer in the buffer of finished tasks. -/
def Reaped (c : Config σ) (t : Nat) : Prop :=
  c.machine.registry.isDone t = true ∧ t ∉ c.machine.registry.finished

theorem Reaped.step {w : World σ} {o : RunOptions} (hc : c.Sound begun) (h : c.Reaped t) :
    (c.step w o).Reaped t := by
  obtain ⟨u, hu, hd⟩ := Registry.isDone_iff.mp h.1
  obtain ⟨u', hu', hk⟩ := (amends_step w o c).kept hu
  refine ⟨Registry.isDone_iff.mpr ⟨u', hu', hk.done hd⟩, fun hm => ?_⟩
  rcases (amends_step w o c).buffered.2 t hm with hm | hm | hle
  · exact h.2 hm
  · obtain ⟨v, hv, hvd⟩ := (Sound.forest hc).mem_pending.mp hm
    rw [hu, Option.some.injEq] at hv
    exact Bool.false_ne_true (hvd.symm.trans (hv ▸ hd))
  · exact Nat.lt_irrefl _ (Nat.lt_of_lt_of_le (Registry.get?_eq_some_lt hu) hle)

theorem Reaped.run {w : World σ} {o : RunOptions} (hc : c.Sound begun) (h : c.Reaped t) (n : Nat) :
    (run w o n c).Reaped t := by
  induction n with
  | zero => exact h
  | succ n ih =>
    obtain ⟨_, _, hs⟩ := sound_run w o hc n
    rw [run_succ]
    split
    · exact ih
    · exact ih.step hs

/-- What is handed to a round is over and out of the buffer. -/
theorem reaped_of_bubble {ids : List Nat} (hc : c.Sound begun) (hb : c.control = .bubble ids)
    (ht : t ∈ ids) : c.Reaped t := by
  obtain ⟨m, stack, control⟩ := c
  obtain rfl : control = .bubble ids := hb
  cases hc with
  | bubbling _ heard ended => exact ⟨ended t ht, by rw [heard]; exact List.not_mem_nil⟩

/-- The batch handed to a round later on is a buffer of the time between. -/
theorem exists_buffer (w : World σ) (o : RunOptions) (hc : c.Sound begun) {n : Nat} {ids : List Nat}
    (hb : (run w o (n + 1) c).control = .bubble ids) :
    ids = (run w o n c).machine.registry.finished := by
  obtain ⟨_, _, hs⟩ := sound_run w o hc n
  rw [run_succ] at hb
  split at hb
  · rename_i hf
    rw [isFinal, hb] at hf
    simp at hf
  · exact (turn_step w o hs).bubble_inv hb

/-- A task is handed to one round at most. -/
theorem not_bubble_of_reaped (w : World σ) (o : RunOptions) (hc : c.Sound begun)
    (h : c.Reaped t) {n : Nat}
    {ids : List Nat} (hb : (run w o (n + 1) c).control = .bubble ids) : t ∉ ids := by
  rw [exists_buffer w o hc hb]
  exact (h.run hc n).2

/-- Neither of two moments is the earlier one. -/
theorem eq_of_not_before {P : Nat → Prop} (h : ∀ k n, k < n → P k → ¬ P n) {k n : Nat} (hk : P k)
    (hn : P n) : k = n := by
  rcases Nat.lt_trichotomy k n with hlt | he | hlt
  · exact (h k n hlt hk hn).elim
  · exact he
  · exact (h n k hlt hn hk).elim

theorem not_finalizes_after (w : World σ) (o : RunOptions) (hc : c.Sound begun)
    (h : c.Open) {k n : Nat}
    (hkn : k < n) (hk : (run w o k c).Finalizes w o t) : ¬ (run w o n c).Finalizes w o t := by
  intro hn
  obtain ⟨_, _, hsk⟩ := sound_run w o hc k
  obtain ⟨_, _, hsn⟩ := sound_run w o hc n
  obtain ⟨u, hu, hd⟩ := unfinished_of_finalizes hsk hk
  have hdone := (isDone_step_iff w o hsk hu hd).mpr hk
  obtain ⟨v, hv, hvd⟩ := Registry.isDone_iff.mp hdone
  have hstep : run w o (k + 1) c = (run w o k c).step w o := by
    rw [run_succ, not_isFinal_of_finalizes hk]
    rfl
  rw [← hstep] at hv
  obtain ⟨a, b, hv'⟩ := final_run w o hc h hkn hv hvd
  obtain ⟨v', hv'', hopen⟩ := unfinished_of_finalizes hsn hn
  rw [hv', Option.some.injEq] at hv''
  exact Bool.false_ne_true (hopen.symm.trans (hv'' ▸ hvd))

/-- The life of task `t` in the run from `c` on. -/
structure EndsOnce (w : World σ) (o : RunOptions) (c : Config σ) (t : Nat) : Prop where
  /-- Its entry is called once. -/
  started : ∀ {k n}, (run w o k c).control = .start t → (run w o n c).control = .start t → k = n
  /-- It is finalized once, and that is how it comes to be over. -/
  finalized : ∀ {k n}, (run w o k c).Finalizes w o t → (run w o n c).Finalizes w o t → k = n
  ends : ∀ {n u}, (run w o n c).machine.registry.get? t = some u → u.done = false →
    ((run w o (n + 1) c).machine.registry.isDone t = true ↔ (run w o n c).Finalizes w o t)
  /-- One batch of finished tasks has it, once. -/
  reaped : ∀ {k n ids ids'}, (run w o k c).control = .bubble ids → t ∈ ids →
    (run w o n c).control = .bubble ids' → t ∈ ids' → k = n
  batched : ∀ {n ids}, (run w o n c).control = .bubble ids → ids.Nodup
  /-- It is pending exactly while it is not over. -/
  pending : ∀ n, t ∈ (run w o n c).machine.registry.pending ↔
    ∃ u, (run w o n c).machine.registry.get? t = some u ∧ u.done = false
  /-- Once it is over it keeps all but two flags, and its coroutine is not resumed. -/
  final : ∀ {k n u}, k ≤ n → (run w o k c).machine.registry.get? t = some u → u.done = true →
    (∃ cancelled abandoned, (run w o n c).machine.registry.get? t =
      some (u.flag cancelled abandoned)) ∧
      (run w o n c).resumption? t = none

end Config

/-- **A task starts, ends and is reaped once, and stays as it has ended**, in every run and whatever
code the world answers with. -/
theorem tasks_end_once (w : World σ) (o : RunOptions) (outer : σ) (name : String) (g t : Nat) :
    (Config.launched outer name g).EndsOnce w o t := by
  have hc := Config.sound_launched outer name g
  have hopen := Config.open_of_sound hc nofun
  have hs : ∀ n, ∃ begun, (Config.run w o n (Config.launched outer name g)).Sound begun :=
    Config.sound_reached w o outer name g
  constructor
  case started =>
    intro k n hk hn
    refine Config.eq_of_not_before (P := fun n =>
      (Config.run w o n (Config.launched outer name g)).control = .start t)
        (fun k n hlt hk => ?_) hk hn
    obtain ⟨begun, hsk⟩ := hs k
    obtain ⟨d, rfl⟩ := Nat.exists_eq_add_of_lt hlt
    rw [Nat.add_assoc, Config.run_add]
    exact Config.start_ne_of_started w o hsk (Or.inr (by rw [hk])) d
  case finalized =>
    intro k n hk hn
    exact Config.eq_of_not_before
      (fun k n hlt hk => Config.not_finalizes_after w o hc hopen hlt hk) hk hn
  case ends =>
    intro n u hu hd
    obtain ⟨begun, hsn⟩ := hs n
    rw [Config.run_succ]
    split
    · rename_i hf
      rw [Registry.isDone_of_eq_some hu, hd]
      refine iff_of_false Bool.false_ne_true fun h => ?_
      rw [Config.not_isFinal_of_finalizes h] at hf
      exact Bool.false_ne_true hf
    · exact Config.isDone_step_iff w o hsn hu hd
  case reaped =>
    intro k n ids ids' hk ht hn ht'
    refine Config.eq_of_not_before (P := fun n => ∃ ids,
      (Config.run w o n (Config.launched outer name g)).control = .bubble ids ∧ t ∈ ids)
      (fun k n hlt hk hn => ?_) ⟨ids, hk, ht⟩ ⟨ids', hn, ht'⟩
    obtain ⟨begun, hsk⟩ := hs k
    obtain ⟨ids, hk, ht⟩ := hk
    obtain ⟨ids', hn, ht'⟩ := hn
    obtain ⟨d, rfl⟩ := Nat.exists_eq_add_of_lt hlt
    rw [Nat.add_assoc, Config.run_add] at hn
    exact Config.not_bubble_of_reaped w o hsk (Config.reaped_of_bubble hsk hk ht) hn ht'
  case batched =>
    intro n ids hb
    cases n with
    | zero => cases hb
    | succ n =>
      obtain ⟨begun, hsn⟩ := hs n
      rw [Config.exists_buffer w o hc hb]
      exact (Sound.forest hsn).finished_nodup
  case pending =>
    intro n
    obtain ⟨begun, hsn⟩ := hs n
    exact (Sound.forest hsn).mem_pending
  case final =>
    intro k n u hkn hu hd
    obtain ⟨a, b, hn⟩ := Config.final_run w o hc hopen hkn hu hd
    refine ⟨⟨a, b, hn⟩, ?_⟩
    obtain ⟨begun, hsn⟩ := hs n
    by_contra hr
    obtain ⟨s, hr⟩ := Option.ne_none_iff_exists'.mp hr
    obtain ⟨v, hv, free⟩ := Config.free_of_resumption hsn hr
    rw [hn, Option.some.injEq] at hv
    exact Bool.false_ne_true (free.done.symm.trans (hv ▸ hd))

/-- The task that stands for the delay is started, finished and reaped in steps 8 and 10 and in no
other. -/
theorem delay_ends_once :
    (∀ n, (Playbook.delayed.played n).control = .start 1 ↔ n = 8) ∧
      (∀ n, (Playbook.delayed.played n).Finalizes Playbook.world .default 1 ↔ n = 8) ∧
      ∀ n, (∃ ids, (Playbook.delayed.played n).control = .bubble ids ∧ 1 ∈ ids) ↔ n = 10 := by
  have h := tasks_end_once Playbook.world .default Playbook.delayed "root" 0 1
  have hstart : (Playbook.delayed.played 8).control = .start 1 := rfl
  have hfinal : (Playbook.delayed.played 8).Finalizes Playbook.world .default 1 :=
    ⟨_, rfl, rfl, rfl, rfl⟩
  have hbubble : (Playbook.delayed.played 10).control = .bubble [1] := rfl
  refine ⟨fun n => ⟨fun hn => h.started hn hstart, ?_⟩,
    fun n => ⟨fun hn => h.finalized hn hfinal, ?_⟩,
    fun n => ⟨?_, ?_⟩⟩
  · rintro rfl
    exact hstart
  · rintro rfl
    exact hfinal
  · rintro ⟨ids, hn, ht⟩
    exact h.reaped hn ht hbubble (List.mem_singleton.mpr rfl)
  · rintro rfl
    exact ⟨_, hbubble, List.mem_singleton.mpr rfl⟩

end Rehearsal
