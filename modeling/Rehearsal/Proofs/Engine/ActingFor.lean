import Rehearsal.Proofs.Engine.Dialogue
import Rehearsal.Proofs.Engine.Refusing
import Rehearsal.Proofs.Task.Subtree

/-!
# Whom an effect acts for

A member of a race or gather is interpreted for a placeholder, which runs no tested code. What it
forks, cancels or asks is meant for the task whose coroutine yielded the outermost of the races and
gathers it stands in, and that is the nearest task on the stack that is being driven. Ownership
follows the stack, so the task is found by climbing from the placeholder to the first that has a
coroutine.
-/
namespace Rehearsal

variable {σ : Type} {begun : Nat → Prop} {w : World σ} {o : RunOptions}

/-- What is being interpreted stands in a nest of races and gathers that task `u` has yielded. The
stack shows `below`, the frame of that task, and the nest with one placeholder for each level. -/
inductive ActsFor (u : Nat) (yielded : Value) (below : List Frame) : Value → List Frame → Prop
  | yielded : ActsFor u yielded below yielded (.driving u :: below)
  | member {race : Bool} {members : Members} {v : Value} {stack : List Frame}
      (outer : ActsFor u yielded below (.effect (.ofMembers race members)) stack)
      (listed : v ∈ members.values) (p : Nat) (k : Composite) :
      ActsFor u yielded below v (.member p :: .composite k :: stack)

namespace ActsFor

variable {u : Nat} {yielded effect : Value} {stack below : List Frame}

theorem owner?_eq (h : ActsFor u yielded below effect stack) : owner? stack = some u := by
  induction h with
  | yielded => rfl
  | member _ _ _ _ ih => exact ih

theorem mem_stack (h : ActsFor u yielded below effect stack) : .driving u ∈ stack := by
  induction h with
  | yielded => exact List.mem_cons_self ..
  | member _ _ _ _ ih => exact List.mem_cons_of_mem _ (List.mem_cons_of_mem _ ih)

theorem mem_runners (h : ActsFor u yielded below effect stack) : u ∈ runners stack :=
  List.mem_filterMap.mpr ⟨_, h.mem_stack, rfl⟩

/-- The task is none of the placeholders. -/
theorem ne_of_member (h : ActsFor u yielded below effect stack)
    (alone : (runners stack).Nodup) {p : Nat}
    (hp : .member p ∈ stack) : p ≠ u := by
  induction h with
  | yielded =>
    rintro rfl
    have hbelow : .member p ∈ below := (List.mem_cons.mp hp).resolve_left nofun
    exact (List.nodup_cons.mp alone).1 (List.mem_filterMap.mpr ⟨_, hbelow, rfl⟩)
  | @member _ _ _ stack outer _ q k ih =>
    obtain ⟨hq, alone⟩ : q ∉ runners stack ∧ (runners stack).Nodup := List.nodup_cons.mp alone
    rcases List.mem_cons.mp hp with hp | hp
    · cases hp
      rintro rfl
      exact hq outer.mem_runners
    · exact ih alone ((List.mem_cons.mp hp).resolve_left nofun)

end ActsFor

namespace Config

variable {c : Config σ} {n : Nat}

/-- After `n` steps of the run from `c` the effect is interpreted for the sake of what task `u`
yielded after `j` of them. The task has not been resumed since. -/
structure Serves (w : World σ) (o : RunOptions) (c : Config σ) (j n u : Nat)
    (yielded effect : Value) : Prop where
  before : j ≤ n
  control : (run w o j c).control = .interpret u yielded false
  unresumed : Quiet w o c u j n
  nested : ∃ below, (run w o j c).stack = .driving u :: below ∧
    ActsFor u yielded below effect (run w o n c).stack

theorem core_of_interpret (hc : c.Sound begun) {t : Nat} {effect : Value} {b : Bool}
    (hcontrol : c.control = .interpret t effect b) :
    Core begun c.machine.registry [] c.stack none ∧ Nested (some t) c.stack := by
  obtain ⟨m, stack, control⟩ := c
  obtain rfl : control = .interpret t effect b := hcontrol
  cases hc with
  | interpreting _ _ core nested => exact ⟨core, nested⟩

/-- A placeholder is given a member once. -/
theorem asked_once (hc : c.Sound begun) (hfirst : ∀ t effect b, c.control ≠ .interpret t effect b)
    {i n p : Nat} {v v' : Value} (hi : (run w o i c).control = .interpret p v true)
    (hn : (run w o n c).control = .interpret p v' true) : i = n := by
  have hmade : ∀ {n : Nat} {v : Value}, (run w o n c).control =
      .interpret p v true → ∃ k, n = k + 1 ∧
      p = (run w o k c).machine.registry.size ∧ p < (run w o n c).machine.registry.size := by
    intro n v hn
    cases n with
    | zero => exact (hfirst _ _ _ hn).elim
    | succ k =>
      obtain ⟨_, _, hk⟩ := sound_run w o hc k
      cases hfin : (run w o k c).isFinal with
      | true =>
        rw [run_succ, if_pos hfin] at hn
        simp [isFinal, hn] at hfin
      | false =>
        rw [run_succ_of_not_isFinal hfin] at hn ⊢
        rcases (turn_step w o hk).interprets_inv hn with ⟨hb, _⟩ | ⟨_, hp, ⟨u, hu⟩, _⟩
        · cases hb
        · exact ⟨k, rfl, hp, Registry.get?_eq_some_lt hu⟩
  obtain ⟨i', rfl, hpi, hlti⟩ := hmade hi
  obtain ⟨n', rfl, hpn, hltn⟩ := hmade hn
  have hgrows : ∀ {a b : Nat}, a ≤ b →
      (run w o a c).machine.registry.size ≤ (run w o b c).machine.registry.size := by
    intro a b hab
    obtain ⟨d, rfl⟩ := Nat.exists_eq_add_of_le hab
    rw [run_add]
    exact size_run w o d
  by_contra hne
  rcases Nat.lt_or_gt_of_ne hne with hlt | hlt
  · have := hgrows (show i' + 1 ≤ n' by omega)
    omega
  · have := hgrows (show n' + 1 ≤ i' by omega)
    omega

/-- **Whatever is interpreted serves what some task has yielded.** -/
theorem exists_serves (w : World σ) (o : RunOptions) (hc : c.Underway)
    (hbare : ∀ f ∈ c.stack, f.wards = [])
    (hfirst : ∀ t effect b, c.control ≠ .interpret t effect b) {t : Nat} {effect : Value} {b : Bool}
    (hcontrol : (run w o n c).control = .interpret t effect b) :
    ∃ u j yielded, Serves w o c j n u yielded effect := by
  induction n using Nat.strongRecOn generalizing t effect b with
  | _ n ih =>
    obtain ⟨begun, hs⟩ := hc.sound
    cases n with
    | zero => exact (hfirst _ _ _ hcontrol).elim
    | succ n =>
      cases hfin : (run w o n c).isFinal with
      | true =>
        rw [run_succ, if_pos hfin] at hcontrol
        simp [isFinal, hcontrol] at hfin
      | false =>
        obtain ⟨_, _, hsn⟩ := sound_run w o hs n
        have hturn := turn_step w o hsn
        rw [← run_succ_of_not_isFinal hfin] at hturn
        rcases hturn.interprets_inv hcontrol with
          ⟨rfl, _, below, _, hstack⟩ | ⟨rfl, _, _, k, below, hstack, hward⟩
        · refine ⟨t, n + 1, effect, Nat.le_refl _, hcontrol,
            fun i hi hlt => by omega, below, hstack, ?_⟩
          rw [hstack]
          exact .yielded
        · have htops : Tops (· = .composite k) below (run w o (n + 1) c).stack := by
            rw [hstack]
            exact .under (.top rfl)
          cases hosts_run w o hc hbare (n + 1) htops (List.ne_nil_of_mem hward) with
          | @composite j _ race members b' before asked collects since =>
            obtain ⟨member, hmember, i, hi, hasked, _⟩ := collects.exists_asked hward
            rw [← run_add] at hasked
            have hlast := asked_once hs hfirst hasked hcontrol
            rw [hlast, hcontrol] at hasked
            cases hasked
            obtain ⟨u, j₀, yielded, hserves⟩ := ih j before asked
            obtain ⟨under, hyield, hacts⟩ := hserves.nested
            refine ⟨u, j₀, yielded,
              Nat.le_trans hserves.before (Nat.le_of_lt before), hserves.control,
              fun i hi hlt => ?_, under, hyield, ?_⟩
            · rcases Nat.lt_trichotomy i j with hij | rfl | hji
              · exact hserves.unresumed i hi hij
              · simp only [resumption?, asked]
              · obtain ⟨_, _, hsi⟩ := sound_run w o hs i
                refine unresumed_of_tops hsi ?_ (since i hji (Nat.le_of_lt hlt)) hacts.mem_runners
                rintro _ ⟨_, h, _⟩
                cases h
            · rw [hstack]
              exact .member hacts hmember _ k

/-- What the step from `c` to `c'` does when an effect is interpreted for the sake of task `u`: a
fork makes `u` the parent, cancelling flags what `u` owns, and the flag that is asked for is that of
`u`. -/
structure DoneFor (w : World σ) (c c' : Config σ) (u : Nat) (effect : Value) : Prop where
  forks : ∀ fn args kwargs detached plan s, effect = .effect (.fork fn args kwargs detached) →
    w.plan { c.machine.view with steps := c.machine.steps + 1 }
      ⟨fn, args, kwargs⟩ true c.machine.outer =
      (.ok plan, s) →
    (∃ child, c'.machine.registry.get? c.machine.registry.size = some child ∧
      child.parent = if detached then none else some u) ∧
    ∀ i v, c.machine.registry.get? i = some v → c'.machine.registry.get? i = some { v with
      children := if detached = false ∧
      i = u then v.children ++ [c.machine.registry.size] else v.children }
  cancels : effect = .effect .cancelSelf → ∀ i, c'.machine.registry.get? i =
    (c.machine.registry.get? i).map (Task.flag (decide (i ∈ c.machine.registry.subtree u)) false)
  answers : effect = .effect .cancelled → c'.machine.registry = c.machine.registry ∧
    ∃ v, c.machine.registry.get? u = some v ∧ c'.control = .answer (.advance (.bool v.cancelled))

/-- An effect that is interpreted for task `t` is done for the task that answers for `t`. -/
theorem doneFor_step (w : World σ) (forest : c.machine.registry.Forest) {t u : Nat}
    {v : Task} {effect : Value}
    {b : Bool} (hcontrol : c.control = .interpret t effect b)
    (hsteps : c.machine.steps < o.stepLimit)
    (howner : c.machine.registry.coroutineOwner t = u) (hu : c.machine.registry.get? u = some v) :
    DoneFor w c (c.step w o) u effect := by
  have hstep : c.step w o = ofOutcome c.stack (c.machine.interpret w o t effect b) :=
    step_interpret w o hcontrol
  have htick : (c.machine.tick o) = (.ok (), { c.machine with steps := c.machine.steps + 1 }) :=
    c.machine.tick_of_lt hsteps
  rw [Machine.interpret_counted w o c.machine t effect b (by rw [htick]), htick] at hstep
  dsimp only at hstep
  subst howner
  refine ⟨?_, ?_, ?_⟩
  · rintro fn args kwargs detached plan s rfl hplan
    have hparent :
        ∀ p, (if detached then none else some (c.machine.registry.coroutineOwner t)) = some p →
        p < c.machine.registry.size := by
      intro p hp
      cases detached with
      | true => cases hp
      | false =>
        cases hp
        exact Registry.get?_eq_some_lt hu
    have hregistry : (c.step w o).machine.registry =
        (c.machine.registry.create (Call.mk fn args kwargs).name
        plan.wait
          (if detached then none else some (c.machine.registry.coroutineOwner t)) detached none
        (some (.planned plan ⟨fn, args, kwargs⟩))).1 := by
      rw [hstep]
      show (Machine.interpretFork w _ t ⟨fn, args, kwargs⟩ detached).machine.registry = _
      have hview : ({ c.machine with steps := c.machine.steps + 1 } : Machine σ).view =
          { c.machine.view with steps := c.machine.steps + 1 } := rfl
      unfold Machine.interpretFork
      simp only [hview, hplan, Machine.create_eq]
      split <;> rfl
    rw [hregistry]
    refine ⟨⟨_, Registry.Forest.get?_create_new _ _ _ _ _ _ hparent, rfl⟩, fun i x hx => ?_⟩
    rw [forest.get?_create_old hparent hx]
    congr 2
    cases detached with
    | true => simp
    | false => simp [eq_comm]
  · rintro rfl i
    rw [hstep]
    exact Registry.get?_cancelTree _ _ i
  · rintro rfl
    rw [hstep]
    have hget : ({ c.machine with steps := c.machine.steps + 1 } : Machine σ).get?
        (c.machine.registry.coroutineOwner t) = some v := hu
    show (Machine.interpretCancelled _ t).machine.registry = _ ∧ ∃ v, _ ∧
      (Machine.interpretCancelled _ t).control = _
    unfold Machine.interpretCancelled
    simp only [hget]
    exact ⟨rfl, v, hu, rfl⟩

end Config

open Config in
/-- **Members act for whoever yielded.** Whatever is interpreted, directly or as a member at any
depth, the task that answers for it is the one whose coroutine yielded the outermost race or gather
it stands in. That task has a coroutine and is none of the placeholders; what is forked belongs to
it, what is cancelled is what it owns, and the flag that is asked for is its own. -/
theorem members_act_for_who_yielded (w : World σ) (o : RunOptions) (outer : σ)
    (name : String) (g n t : Nat)
    (effect : Value) (b : Bool)
    (hcontrol : (run w o n (launched outer name g)).control = .interpret t effect b) :
    ∃ u j yielded, Serves w o (launched outer name g) j n u yielded effect ∧
      (run w o n (launched outer name g)).machine.registry.coroutineOwner t = u ∧
      (∃ v, (run w o n (launched outer name g)).machine.registry.get? u = some v ∧
        v.coroutine.isSome = true) ∧
      (∀ p, .member p ∈ (run w o n (launched outer name g)).stack → p ≠ u) ∧
      ((run w o n (launched outer name g)).machine.steps < o.stepLimit →
        DoneFor w (run w o n (launched outer name g))
          (run w o (n + 1) (launched outer name g)) u effect) := by
  have hbare : ∀ f ∈ (launched outer name g).stack, f.wards = [] := by
    intro f hf
    rcases List.mem_pair.mp hf with rfl | rfl <;> rfl
  obtain ⟨u, j, yielded, hserves⟩ :=
    exists_serves w o (underway_launched outer name g) hbare (fun _ _ _ h => nomatch h) hcontrol
  obtain ⟨_, _, hacts⟩ := hserves.nested
  have hunderway := (underway_launched outer name g).run w o n fun f hf => by
    rw [hcontrol] at hf; cases hf
  obtain ⟨begun, hs⟩ := hunderway.sound
  obtain ⟨core, nested⟩ := core_of_interpret hs hcontrol
  have howner : (run w o n (launched outer name g)).machine.registry.coroutineOwner t = u := by
    have h := nested.owner?_eq core hunderway.lineal.stack
    rw [hacts.owner?_eq, Option.some.injEq] at h
    exact h.symm
  obtain ⟨v, hv, hco⟩ := core.frames _ hacts.mem_stack
  refine ⟨u, j, yielded, hserves, howner, ⟨v, hv, hco⟩, fun p => hacts.ne_of_member core.alone,
    fun hsteps => ?_⟩
  rw [run_succ, if_neg (by simp [isFinal, hcontrol])]
  exact doneFor_step w core.forest hcontrol hsteps howner hv

/-- The root forks as a member of a race that is a member of a gather. -/
def Playbook.nestedFork : Playbook where
  responses
    | 0 => [.yielded (.effect (.gather (.listed
        [.effect (.race (.listed [.effect (.fork .null [] [] false)]))])))]
    | _ => []
  plans := [{ CallPlan.real with wait := .tick 1 }]

theorem nested_fork_belongs_to_root :
    (Playbook.nestedFork.played 3).control = .interpret 2 (.effect (.fork .null [] [] false)) true ∧
      (∃ child, (Playbook.nestedFork.played 4).machine.registry.get? 3 = some child ∧
        child.parent = some 0) ∧
      (∃ root, (Playbook.nestedFork.played 4).machine.registry.get? 0 = some root ∧
        root.children = [1, 3]) ∧
      ∃ placeholder, (Playbook.nestedFork.played 4).machine.registry.get? 2 = some placeholder ∧
        placeholder.children = [] := by
  have hcontrol : (Playbook.nestedFork.played 3).control =
    .interpret 2 (.effect (.fork .null [] [] false)) true := rfl
  obtain ⟨u, j, yielded, _, howner, _, _, hdone⟩ :=
    members_act_for_who_yielded Playbook.world .default Playbook.nestedFork
      "root" 0 3 2 _ true hcontrol
  have hroot : (Playbook.nestedFork.played 3).machine.registry.coroutineOwner 2 =
    0 := by decide +kernel
  obtain rfl : u = 0 := howner.symm.trans hroot
  obtain ⟨hchild, hothers⟩ := (hdone (by decide)).forks _ _ _ _ _ _ rfl rfl
  exact ⟨hcontrol, hchild, ⟨_, hothers 0 _ rfl, rfl⟩, _, hothers 2 _ rfl, rfl⟩

end Rehearsal
