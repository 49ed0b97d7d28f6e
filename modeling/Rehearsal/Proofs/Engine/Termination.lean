import Mathlib.Algebra.GroupWithZero.Nat
import Mathlib.Data.Finset.Card
import Rehearsal.Proofs.Engine.Counting
import Rehearsal.Proofs.Engine.Turns

/-!
# Every run comes to its end

Interpretations and turns of the main loop are counted, and the count has a ceiling. Between two of
them no task is made, so each step either uses up some of the effort that is left for the tasks
there are (one that is pending finishes, one that has finished is reaped, one that has not failed
fails), or leaves less on the stack. The lexicographic order of the three is well-founded.
-/
namespace Rehearsal

variable {σ : Type}

namespace Registry

/-- The tasks that have not failed. -/
def hale (r : Registry) : Finset Nat :=
  (Finset.range r.size).filter fun i => (r.get? i).bind (·.error) = none

/-- How much is left to do with the tasks that are there: pending ones will finish, finished ones
will be reaped, and any may fail once. -/
def effort (r : Registry) : Nat := 2 * r.pending.length + r.finished.length + r.hale.card

theorem hale_subset {r r' : Registry} (hs : r'.size ≤ r.size)
    (he : ∀ i u, r.get? i = some u → (r'.get? i).bind (·.error) = none → u.error = none) :
    r'.hale ⊆ r.hale := by
  intro i hi
  rw [hale, Finset.mem_filter, Finset.mem_range] at hi ⊢
  obtain ⟨u, hu⟩ := exists_of_lt (Nat.lt_of_lt_of_le hi.1 hs)
  refine ⟨Nat.lt_of_lt_of_le hi.1 hs, ?_⟩
  rw [hu]
  exact he i u hu hi.2

theorem hale_modify {r : Registry} {t : Nat} {f : Task → Task}
    (hf : ∀ u : Task, (f u).error = none → u.error = none) : (r.modify t f).hale ⊆ r.hale := by
  refine hale_subset (Nat.le_of_eq (size_modify ..)) fun i u hu he => ?_
  rw [get?_modify, hu] at he
  split at he
  · exact hf u he
  · exact he

theorem effort_modify_le {r : Registry} {t : Nat} {f : Task → Task}
    (hf : ∀ u : Task, (f u).error = none → u.error = none) : (r.modify t f).effort ≤ r.effort :=
  Nat.add_le_add_left (Finset.card_le_card (hale_modify hf)) _

theorem Flagged.effort_le {r r' : Registry} {gone : Nat → Prop} (h : Flagged r r' gone) :
    r'.effort ≤ r.effort := by
  unfold effort
  rw [h.pending, h.finished]
  refine Nat.add_le_add_left (Finset.card_le_card ?_) _
  refine hale_subset (Nat.le_of_eq h.size) fun i u hu he => ?_
  obtain ⟨c, l, hu', _⟩ := h.eq_some hu
  rw [hu'] at he
  exact he

/-- A task that finishes is no longer pending, and waits to be reaped. -/
theorem effort_finish_le (r : Registry) (t : Nat) (v : Value) :
    ((r.modify t (·.finish v)).retire t).effort ≤ r.effort := by
  have hhale : ((r.modify t (·.finish v)).retire t).hale.card ≤ r.hale.card := by
    refine Finset.card_le_card (hale_subset (by simp) fun i u hu he => ?_)
    rw [get?_retire, get?_modify, hu] at he
    split at he <;> exact he
  have hmoved : 2 * ((r.modify t (·.finish v)).retire t).pending.length +
      ((r.modify t (·.finish v)).retire t).finished.length ≤
        2 * r.pending.length + r.finished.length := by
    by_cases hmem : t ∈ r.pending
    · rw [retire_of_mem (r := r.modify t (·.finish v)) hmem]
      show 2 * (r.pending.erase t).length + (r.finished ++ [t]).length ≤ _
      have hpos := List.length_pos_of_mem hmem
      rw [List.length_erase_of_mem hmem, List.length_append, List.length_singleton]
      omega
    · rw [retire, if_neg (by simpa using hmem)]
      exact Nat.le_refl _
  exact Nat.add_le_add hmoved hhale

/-- A task that fails for the first time will not fail again. -/
theorem effort_fail_lt {r : Registry} {t : Nat} {u : Task} (hu : r.get? t = some u)
    (he : u.error = none) (e : Exn) :
    (r.modify t fun u => { u with error := some e }).effort < r.effort := by
  refine Nat.add_lt_add_left (Finset.card_lt_card ⟨hale_modify ?_, fun hsub => ?_⟩) _
  · exact fun _ h => (Option.some_ne_none _ h).elim
  · have hmem : t ∈ r.hale := by
      rw [hale, Finset.mem_filter, Finset.mem_range, hu]
      exact ⟨get?_eq_some_lt hu, he⟩
    have hlost := hsub hmem
    rw [hale, Finset.mem_filter, get?_modify_of_eq_some _ hu] at hlost
    exact Option.some_ne_none _ hlost.2

/-- A reaped buffer is not reaped again. -/
theorem effort_reap_lt {r : Registry} (h : r.finished ≠ []) : r.reap.1.effort < r.effort := by
  have hpos := List.length_pos_of_ne_nil h
  have hhale : r.reap.1.hale = r.hale := rfl
  unfold effort
  rw [hhale]
  show 2 * r.pending.length + 0 + _ < _
  omega

/-- Without leave to make tasks there is less and less to do. -/
theorem Amends.effort_le {l : Licence} {r r' : Registry} (h : r.Amends l r') (hm : ¬ l.makes) :
    r'.effort ≤ r.effort := by
  induction h with
  | refl => exact Nat.le_refl _
  | trans _ _ ih ih' => exact Nat.le_trans ih' ih
  | modify _ adjusts => exact effort_modify_le fun u he => (adjusts u).error ▸ he
  | fail => exact effort_modify_le fun _ he => (Option.some_ne_none _ he).elim
  | @finish r t v _ => exact effort_finish_le r t v
  | @flagged r r' _ h _ => exact h.effort_le
  | create makes _ => exact (hm makes).elim
  | reap r =>
    simp only [effort, Registry.reap, List.length_nil]; exact Nat.add_le_add_right (by omega) _

/-- Without leave to make tasks none are added to the pending ones. -/
theorem Amends.pending_le {l : Licence} {r r' : Registry} (h : r.Amends l r') (hm : ¬ l.makes) :
    r'.pending.length ≤ r.pending.length := by
  induction h with
  | trans _ _ ih ih' => exact Nat.le_trans ih' ih
  | @finish r t v _ =>
    unfold retire
    split
    · exact (r.pending.erase_sublist (a := t)).length_le
    · exact Nat.le_refl _
  | @flagged r r' _ h _ => exact Nat.le_of_eq (congrArg List.length h.pending)
  | create makes _ => exact (hm makes).elim
  | refl | modify | fail | reap => exact Nat.le_refl _

/-- No more is left to do in `r'` than in `r`, and no more tasks are pending. -/
structure NoMore (r' r : Registry) : Prop where
  effort : r'.effort ≤ r.effort
  pending : r'.pending.length ≤ r.pending.length

end Registry

/-! ### What is left on the stack -/

def Frame.weight : Frame → Nat
  | .batch rest | .round _ rest => 5 * rest.length + 2
  | .loop _ => 1
  | _ => 2

namespace Config

/-- More than the steps that the control takes by itself. A round is as long as the list of pending
tasks. -/
def load (c : Config σ) : Nat :=
  match c.control with
  | .done | .abort _ | .interpret .. => 0
  | .raised _ | .answer _ | .complete .. | .fail .. => 1
  | .drive .. => 2
  | .start _ | .propagate .. => 3
  | .runTask _ => 4
  | .bubble finished => if finished.isEmpty then 1 else 5 * c.machine.registry.pending.length + 3

def weight (c : Config σ) : Nat := (c.stack.map Frame.weight).sum + c.load

/-- Twice what is left of the count of steps. A run that is given up has nothing left, and an effect
about to be interpreted has already taken something. -/
def budget (o : RunOptions) (c : Config σ) : Nat :=
  match c.control with
  | .abort _ => 0
  | .interpret .. => 2 * (o.stepLimit + 1 - c.machine.steps) + 1
  | _ => 2 * (o.stepLimit + 1 - c.machine.steps) + 2

inductive Below (o : RunOptions) (c' c : Config σ) : Prop
  | budget (h : c'.budget o < c.budget o)
  | effort (hb : c'.budget o ≤ c.budget o)
      (h : c'.machine.registry.effort < c.machine.registry.effort)
  | weight (hb : c'.budget o ≤ c.budget o)
      (he : c'.machine.registry.effort ≤ c.machine.registry.effort) (h : c'.weight < c.weight)

section Weight

variable {m m' : Machine σ} {f : Frame} {stack below : List Frame} {control control' : Control}

/-- A frame that goes off the stack makes up for its weight. -/
theorem weight_pop
    (h : (⟨m', below, control'⟩ : Config σ).load <
      f.weight + (⟨m, f :: below, control⟩ : Config σ).load) :
    (⟨m', below, control'⟩ : Config σ).weight < (⟨m, f :: below, control⟩ : Config σ).weight := by
  simp only [weight, List.map_cons, List.sum_cons]
  omega

theorem weight_stay
    (h : (⟨m', stack, control'⟩ : Config σ).load < (⟨m, stack, control⟩ : Config σ).load) :
    (⟨m', stack, control'⟩ : Config σ).weight < (⟨m, stack, control⟩ : Config σ).weight :=
  Nat.add_lt_add_left h _

/-- Whoever is resumed leaves the stack, or was to be driven. -/
theorem weight_resumed {t : Nat} {s : Signal} (resumes : Resumes stack control t s below)
    (h : (⟨m', below, control'⟩ : Config σ).load ≤ 1) :
    (⟨m', below, control'⟩ : Config σ).weight < (⟨m, stack, control⟩ : Config σ).weight := by
  cases resumes with
  | driven _ _ _ => exact weight_stay (Nat.lt_of_le_of_lt h (Nat.lt_succ_self 1))
  | answered _ _ _ => exact weight_pop (Nat.lt_of_le_of_lt h (by simp [load, Frame.weight]))
  | entered _ _ _ => exact weight_pop (Nat.lt_of_le_of_lt h (by simp [load, Frame.weight]))
  | thrown _ _ _ => exact weight_pop (Nat.lt_of_le_of_lt h (by simp [load, Frame.weight]))

end Weight

theorem below_wellFounded (o : RunOptions) : WellFounded (Below (σ := σ) o) := by
  refine Subrelation.wf ?_ (InvImage.wf
    (fun c : Config σ => (c.budget o, c.machine.registry.effort, c.weight))
    (Prod.lex ⟨_, Nat.lt_wfRel.wf⟩ (Prod.lex ⟨_, Nat.lt_wfRel.wf⟩ ⟨_, Nat.lt_wfRel.wf⟩)).wf)
  intro c' c h
  cases h with
  | budget h => exact Prod.Lex.left _ _ h
  | effort hb h =>
    rcases Nat.lt_or_eq_of_le hb with hb | hb
    · exact Prod.Lex.left _ _ hb
    · exact Prod.lex_def.mpr (Or.inr ⟨hb, Prod.Lex.left _ _ h⟩)
  | weight hb he h =>
    rcases Nat.lt_or_eq_of_le hb with hb | hb
    · exact Prod.Lex.left _ _ hb
    · refine Prod.lex_def.mpr (Or.inr ⟨hb, ?_⟩)
      rcases Nat.lt_or_eq_of_le he with he | he
      · exact Prod.Lex.left _ _ he
      · exact Prod.lex_def.mpr (Or.inr ⟨he, h⟩)

section Budget

variable {o : RunOptions} {c c' : Config σ}

def between (c : Config σ) : Bool :=
  match c.control with
  | .abort _ | .interpret .. => false
  | _ => true

def uncounted (c : Config σ) : Bool :=
  c.between && match c.control, c.stack with
    | .done, .loop _ :: _ => false
    | _, _ => true

theorem budget_eq (hb : c.between = true) :
    c.budget o = 2 * (o.stepLimit + 1 - c.machine.steps) + 2 := by
  obtain ⟨m, stack, control⟩ := c
  cases control with
  | abort f => cases hb
  | interpret t effect b => cases hb
  | _ => rfl

/-- Between two counted steps nothing is added to the budget. -/
theorem budget_le (hs : c'.machine.steps = c.machine.steps) (hb : c.between = true) :
    c'.budget o ≤ c.budget o := by
  rw [budget_eq hb, ← hs]
  unfold budget
  split <;> omega

/-- An effect that is about to be interpreted takes something. -/
theorem budget_interpret_lt (hs : c'.machine.steps = c.machine.steps) (hb : c.between = true)
    {t : Nat} {effect : Value} {b : Bool} (h : c'.control = .interpret t effect b) :
    c'.budget o < c.budget o := by
  rw [budget_eq hb, ← hs]
  simp only [budget, h]
  omega

theorem between_of_uncounted (h : c.uncounted = true) : c.between = true := by
  unfold uncounted at h
  exact (Bool.and_eq_true_iff.mp h).1

theorem steps_of_uncounted (w : World σ) (o : RunOptions) (h : c.uncounted = true) :
    (c.step w o).machine.steps = c.machine.steps := by
  have hticks : c.ticks o = false := by
    obtain ⟨m, stack, control⟩ := c
    cases control with
    | interpret t effect b => cases h
    | done =>
      match stack with
      | .loop root :: below => cases h
      | [] | .driving _ :: _ | .member _ :: _ | .composite _ :: _ | .forked _ :: _ | .batch _ :: _
      | .round _ _ :: _ => rfl
    | _ => rfl
  rw [steps_step_eq, hticks]
  rfl

/-- Giving up takes everything. -/
theorem budget_abort_lt (ha : ∀ f, c.control ≠ .abort f) {f : Failure} (h : c'.control = .abort f) :
    c'.budget o < c.budget o := by
  have hc' : c'.budget o = 0 := by simp only [budget, h]
  rw [hc']
  unfold budget
  split
  · exact (ha _ ‹_›).elim
  · omega
  · omega

theorem budget_abort_lt_of_between (hb : c.between = true) {f : Failure}
    (h : c'.control = .abort f) :
    c'.budget o < c.budget o := by
  refine budget_abort_lt (fun f hf => ?_) h
  simp [between, hf] at hb

/-- A counted step takes one. -/
theorem budget_tick_lt (ha : ∀ f, c.control ≠ .abort f) (hlt : c.machine.steps < o.stepLimit)
    (hs : c'.machine.steps = c.machine.steps + 1) : c'.budget o < c.budget o := by
  have hc : 2 * (o.stepLimit + 1 - c.machine.steps) + 1 ≤ c.budget o := by
    unfold budget
    split
    · exact (ha _ ‹_›).elim
    · omega
    · omega
  have hc' : c'.budget o ≤ 2 * (o.stepLimit + 1 - c'.machine.steps) + 2 := by
    unfold budget
    split <;> omega
  omega

end Budget

/-- A task that fails leaves less that can fail. -/
theorem effort_fails {w : World σ} {o : RunOptions} {begun : Nat → Prop} {c : Config σ} {t : Nat}
    {e : Exn} (hc : c.Sound begun) (h : c.control = .fail t e) :
    (c.step w o).machine.registry.effort < c.machine.registry.effort := by
  obtain ⟨m, stack, control⟩ := c
  obtain rfl : control = .fail t e := h
  cases hc with
  | @failing _ u _ _ core nested hu free hr =>
    have hstep : (step w o ⟨m, stack, .fail t e⟩).machine =
        (m.condemn t u.children e).wrapUp o t (.failed e) (.error e) := by
      simp only [step, Machine.fail_eq o hu free.error e]
    have hamends := Machine.amends_wrapUp (m.condemn t u.children e) o t
      (l := licence ⟨m, stack, .fail t e⟩) (Or.inl rfl) (.failed e) (.error e)
    have hflag :=
      Registry.cancelAll_flagged (m.registry.modify t fun u => { u with error := some e })
      u.children fun _ => False
    rw [hstep]
    exact Nat.lt_of_le_of_lt (Nat.le_trans (hamends.effort_le id) hflag.effort_le)
      (Registry.effort_fail_lt hu free.error e)

/-- What a step that is not counted leaves to do. An effect is about to be interpreted, or the run
is given up, or effort is used up, at the price of one more round, or less is left on the stack. -/
inductive Recedes (c' c : Config σ) : Prop
  | interprets {t : Nat} {effect : Value} {b : Bool} (h : c'.control = .interpret t effect b)
  | quits {f : Failure} (h : c'.control = .abort f) (hw : c'.weight ≤ c.weight)
  | effort (he : c'.machine.registry.NoMore c.machine.registry)
      (h : c'.machine.registry.effort < c.machine.registry.effort)
      (hw : c'.weight ≤ c.weight + 5 * c.machine.registry.pending.length + 3)
  | weight (he : c'.machine.registry.NoMore c.machine.registry) (h : c'.weight < c.weight)

/-- A frame that ends with a failure goes off the stack, and the failure is raised or gives up the
run. -/
theorem recedes_failure {m : Machine σ} {f : Frame} {below : List Frame} (e : Exn)
    (hf : f.weight = 2) :
    Recedes ⟨m, below, (Failure.exn e).control⟩ ⟨m, f :: below, .done⟩ := by
  unfold Failure.control
  dsimp only
  split
  · exact .weight ⟨Nat.le_refl _, Nat.le_refl _⟩ (weight_pop (by simp [load, hf]))
  · exact .quits rfl (Nat.le_of_lt (weight_pop (by simp [load, hf])))

/-- A coroutine that ends for good leaves its frame where it is. -/
theorem weight_dies {m m' : Machine σ} {stack below : List Frame} {control : Control} {t : Nat}
    {s : Signal} {f : Failure} (resumes : Resumes stack control t s below) :
    (⟨m', .driving t :: below, .abort f⟩ : Config σ).weight ≤
    (⟨m, stack, control⟩ : Config σ).weight := by
  cases resumes <;> simp only [weight, load, Frame.weight, List.map_cons, List.sum_cons] <;> omega

/-- A frame that hands out a task has one less to hand out. -/
theorem weight_picks {m m' : Machine σ} {f f' : Frame} {below : List Frame} {t : Nat}
    {control : Control} (hf : f'.weight + 4 < f.weight)
    (leads : control = .runTask t ∨ control = .done) :
    (⟨m', f' :: below, control⟩ : Config σ).weight <
      (⟨m, f :: below, .done⟩ : Config σ).weight := by
  simp only [weight, List.map_cons, List.sum_cons]
  rcases leads with rfl | rfl
  · simp only [load]
    omega
  · simp only [load]
    omega

/-- A frame without tasks to hand out ends. What has finished by then is reaped, and a round over
the tasks that are pending lies ahead if that is anything. -/
theorem recedes_bubbles {m m' : Machine σ} {f : Frame} {below : List Frame} (hf : f.weight = 2)
    (reaped : m'.registry = m.registry.reap.1) (he : m'.registry.NoMore m.registry) :
    Recedes ⟨m', below, .bubble m.registry.finished⟩ ⟨m, f :: below, .done⟩ := by
  by_cases hnil : m.registry.finished = []
  · exact .weight he (weight_pop (by simp [load, hf, hnil]))
  · refine .effort he ?_ ?_
    · show m'.registry.effort < m.registry.effort
      rw [reaped]
      exact Registry.effort_reap_lt hnil
    · simp only [weight, load, List.map_cons, List.sum_cons, hf, List.isEmpty_iff, hnil, if_false,
        reaped, Registry.reap]
      omega

/-- **Each step that is not counted leaves less to do**, with the tasks there are. -/
theorem recedes_step (w : World σ) (o : RunOptions) {begun : Nat → Prop} {c : Config σ}
    (hc : c.Sound begun) (hu : c.uncounted = true) (hf : c.isFinal = false) :
    Recedes (c.step w o) c := by
  have hturn : Turn o c (c.step w o) := turn_step w o hc
  have hamends := amends_step w o c
  have hfails : ∀ t e, c.control = .fail t e →
      (c.step w o).machine.registry.effort < c.machine.registry.effort := fun _ _ => effort_fails hc
  generalize c.step w o = c' at *
  have he : ¬ c.licence.makes → c'.machine.registry.NoMore c.machine.registry := fun hm =>
    ⟨hamends.effort_le hm, hamends.pending_le hm⟩
  cases hturn with
  | yields | continues => exact .interprets rfl
  | @returns m m' stack below control t _ resumes v =>
    have hw : (⟨m', below, .complete t v⟩ : Config σ).weight <
        (⟨m, stack, control⟩ : Config σ).weight :=
      weight_resumed resumes (Nat.le_refl 1)
    cases resumes <;> exact .weight (he id) hw
  | @escapes m m' stack below control t _ resumes e _ =>
    have hw : (⟨m', below, .fail t e⟩ : Config σ).weight <
        (⟨m, stack, control⟩ : Config σ).weight :=
      weight_resumed resumes (Nat.le_refl 1)
    cases resumes <;> exact .weight (he id) hw
  | dies resumes e => exact .quits rfl (weight_dies resumes)
  | fills | enters | sinks | marks =>
    exact .weight (he id) (weight_pop (by simp [load, Frame.weight]))
  | blocks runner below i => exact .weight (he id) (weight_pop (by simp [load]))
  | concludes below rest hale a =>
    exact .weight (he fun h => h rest) (weight_pop (by simp [load, Frame.weight]))
  | condemns | rethrows => exact recedes_failure _ rfl
  | runs stack t leads =>
    refine .weight (he id) (weight_stay ?_)
    rcases leads with rfl | ⟨v, rfl⟩ | ⟨v, rfl⟩ | rfl <;> simp [load]
  | starts stack t leads =>
    rcases leads with rfl | rfl | ⟨e, _, rfl⟩ | ⟨f, rfl⟩
    · exact .weight (he id) (weight_stay (by simp [load]))
    · exact .weight (he id) (weight_stay (by simp [load]))
    · exact .weight (he id) (weight_stay (by simp [load]))
    · exact .quits rfl (Nat.le_of_lt (weight_stay (by simp [load])))
  | completes | subsides | quiets => exact .weight (he id) (weight_stay (by simp [load]))
  | fails stack t e =>
    refine .effort (he id) (hfails t e rfl) ?_
    simp only [weight, load]
    omega
  | surfaces stack e task parent heeded =>
    exact .quits rfl (Nat.le_of_lt (weight_stay (by simp [load])))
  | climbs stack e heeds leads =>
    refine .weight (he id) (weight_stay ?_)
    rw [leads]
    split <;> simp [load]
  | picks below t frames leads =>
    rcases frames with ⟨rest, rfl, rfl⟩ | ⟨ids, rest, rfl, rfl⟩
    · exact .weight (he id) (weight_picks (by simp [Frame.weight]; omega) leads)
    · exact .weight (he id) (weight_picks (by simp [Frame.weight]; omega) leads)
  | bubbles below frame reaped =>
    rcases frame with rfl | ⟨ids, rfl⟩
    · exact recedes_bubbles rfl reaped (he id)
    · exact recedes_bubbles rfl reaped (he id)
  | rounds stack some same =>
    refine .weight (he id) ?_
    simp [weight, load, Frame.weight, some]
    omega
  | balks stack => exact .quits rfl (Nat.le_add_right ..)
  | replies | refuses | forks | opens | unblocks | stops | ends | unwinds => cases hu
  | rests => cases hf

/-- A run that is given up takes frame after frame off the stack. -/
theorem below_unwind (o : RunOptions) {m : Machine σ} {stack : List Frame} {f : Failure}
    (hs : stack ≠ []) : Below o (unwind m f stack) ⟨m, stack, .abort f⟩ := by
  have hstop : ∀ t, (m.modify t fun task => { task with running := false }).registry.effort ≤
      m.registry.effort := fun t => Registry.effort_modify_le fun _ he => he
  match stack with
  | [] => exact (hs rfl).elim
  | .driving t :: below =>
    exact .weight (Nat.le_refl _) (hstop t) (weight_pop (by simp [load, Frame.weight]))
  | .member _ :: below | .composite _ :: below | .forked _ :: below | .batch _ :: below
  | .round _ _ :: below | .loop _ :: below =>
    exact .weight (Nat.le_refl _) (Nat.le_refl _) (weight_pop (by simp [load, Frame.weight]))

/-- A step that is not counted leaves less to do under any ceiling. -/
theorem Recedes.below {o : RunOptions} {c c' : Config σ} (h : Recedes c' c)
    (hs : c'.machine.steps = c.machine.steps) (hb : c.between = true) : Below o c' c := by
  cases h with
  | interprets h => exact .budget (budget_interpret_lt hs hb h)
  | quits h _ => exact .budget (budget_abort_lt_of_between hb h)
  | effort _ h _ => exact .effort (budget_le hs hb) h
  | weight he h => exact .weight (budget_le hs hb) he.effort h

/-- A step that interprets takes from the budget, where the ceiling can be reported. -/
theorem below_interpret (w : World σ) (o : RunOptions) {m : Machine σ} {stack : List Frame}
    {t : Nat} {effect : Value} {b : Bool}
    (h : ¬ (⟨m, stack, .interpret t effect b⟩ : Config σ).Unreportable o) :
    Below o (step w o ⟨m, stack, .interpret t effect b⟩) ⟨m, stack, .interpret t effect b⟩ := by
  refine .budget ?_
  rcases Nat.lt_or_ge m.steps o.stepLimit with hlt | hle
  · exact budget_tick_lt (fun _ => nofun) hlt (m.steps_interpret o t w effect b)
  · have short : m.registry.waitsLong = false :=
      Bool.eq_false_iff.mpr fun long => h ⟨rfl, hle, long⟩
    obtain ⟨dump, heq⟩ := m.interpret_past o t w effect b hle short
    exact budget_abort_lt (fun _ => nofun)
      (congrArg (fun r => (ofOutcome stack r).control) heq)

/-- So does a turn of the main loop, unless it is the last. -/
theorem below_loop (o : RunOptions) (m : Machine σ) (root : Nat) (below : List Frame) :
    Below o (continueLoop o m root) ⟨m, .loop root :: below, .done⟩ := by
  rcases continueLoop_cases o m root with ⟨_, heq⟩ | ⟨_, ⟨f, heq⟩ | ⟨hlt, _, _, heq⟩⟩
  · rw [heq]
    refine .weight (budget_le rfl rfl) (Nat.le_refl _) ?_
    simp only [weight, load, Frame.weight, halt, List.map_nil, List.map_cons,
      List.sum_nil, List.sum_cons]
    omega
  · rw [heq]
    exact .budget (budget_abort_lt (fun _ h => by cases h) rfl)
  · rw [heq]
    exact .budget (budget_tick_lt (fun _ h => by cases h) hlt rfl)

/-- **Each step leaves less to do**, where the ceiling can be reported. -/
theorem below_step (w : World σ) (o : RunOptions) {begun : Nat → Prop} {c : Config σ}
    (hc : c.Sound begun) (hf : c.isFinal = false) (hr : ¬ c.Unreportable o) :
    Below o (c.step w o) c := by
  cases hu : c.uncounted with
  | true =>
    exact (recedes_step w o hc hu hf).below (steps_of_uncounted w o hu) (between_of_uncounted hu)
  | false =>
    obtain ⟨m, stack, control⟩ := c
    cases control with
    | interpret t effect b => exact below_interpret w o hr
    | abort f =>
      refine below_unwind o ?_
      rintro rfl
      cases hf
    | done =>
      match stack with
      | .loop root :: below => exact below_loop o m root below
      | [] => cases hf
      | .driving _ :: _ | .member _ :: _ | .composite _ :: _ | .forked _ :: _ | .batch _ :: _
      | .round _ _ :: _ => cases hu
    | _ => cases hu

/-- **Every run comes to its end, or to a step past its ceiling that it cannot report**, whatever
the tested code does. -/
theorem exists_isFinal_or_unreportable (w : World σ) (o : RunOptions) {begun : Nat → Prop}
    {c : Config σ} (hc : c.Sound begun) :
    ∃ n, (run w o n c).isFinal = true ∨ (run w o n c).Unreportable o := by
  induction c using (below_wellFounded (σ := σ) o).induction generalizing begun with
  | _ c ih =>
    by_cases hr : c.Unreportable o
    · exact ⟨0, .inr hr⟩
    · cases hf : c.isFinal with
      | true => exact ⟨0, .inl hf⟩
      | false =>
        obtain ⟨n, hn⟩ := ih _ (below_step w o hc hf hr) (sound_step w o hc)
        exact ⟨n + 1, by rw [run_one w o hf]; exact hn⟩

/-- A run that is given up comes to its end. -/
theorem exists_isFinal_of_abort {w : World σ} {o : RunOptions} {begun : Nat → Prop} {c : Config σ}
    {f : Failure} (hc : c.Sound begun) (h : c.control = .abort f) :
    ∃ n, (run w o n c).isFinal = true := by
  obtain ⟨n, hf | hr⟩ := exists_isFinal_or_unreportable w o hc
  · exact ⟨n, hf⟩
  · have hticks := hr.ticks
    simp [ticks, run_abort w o h n] at hticks

/-- A run that can report its ceiling comes to its end. -/
theorem Legible.exists_isFinal {w : World σ} {o : RunOptions} {begun : Nat → Prop} {c : Config σ}
    (h : Legible w o c) (hc : c.Sound begun) : ∃ n, (run w o n c).isFinal = true := by
  obtain ⟨n, hf | hr⟩ := exists_isFinal_or_unreportable w o hc
  · exact ⟨n, hf⟩
  · exact (h n hr).elim

end Config

end Rehearsal
