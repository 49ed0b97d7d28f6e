import Rehearsal.Engine.Run
import Rehearsal.Proofs.Engine.Composites
import Rehearsal.Proofs.Engine.Propagation
import Rehearsal.Proofs.Engine.Rounds

/-!
# What every run passes through

One step keeps a configuration sound, one case for each control. A launched run is sound, and so is
whatever it reaches; those that have begun are the tasks that were started on the way.
-/
namespace Rehearsal

variable {σ : Type} {begun : Nat → Prop} {m : Machine σ} {stack : List Frame}

/-- A task that stands and can be selected has not been started. -/
theorem Task.Standing.fresh_of_selectable {r : Registry} {news : List Nat} {u : Task}
    (h : u.Standing r news) (hs : u.isSelectable = true) : u.Fresh := by
  simp only [Task.isSelectable, Bool.and_eq_true, Bool.not_eq_true'] at hs
  obtain ⟨⟨⟨hd, _⟩, hr⟩, hb⟩ := hs
  cases h with
  | ended hd' _ => exact (Bool.false_ne_true (hd.symm.trans hd')).elim
  | fresh h => exact h
  | active _ hr' => exact (Bool.false_ne_true (hr.symm.trans hr')).elim
  | waiting i h => simp [Task.isBlocked, h.interruption, Interruption.resolved, h.unanswered] at hb
  | holding i h => simp [Task.isBlocked, h.interruption, Interruption.resolved, h.unanswered] at hb

namespace Config

theorem sound_bubble (o : RunOptions) {ids : List Nat}
    (h : Rehearsal.Sound begun m.registry stack (.bubble ids)) :
    (bubble o m stack ids).Sound begun := by
  cases h with
  | bubbling core heard ended =>
    rcases bubble_cases o m [.loop 0] ids with ⟨rfl, heq⟩ | ⟨_, ⟨trace, heq⟩ | ⟨_, heq⟩⟩
    · rw [heq]
      exact .looking core heard
    · rw [heq]
      exact .resting (core.told ended) (.round ids _ 0)
    · rw [heq]
      exact .aborted _ core.forest

theorem sound_continueBatch {rest : List Nat}
    (core : Core begun m.registry [] (.batch rest :: stack) none)
    (nested : Nested none (.batch rest :: stack)) : (continueBatch m stack rest).Sound begun := by
  cases nested with
  | batch _ root =>
    cases rest with
    | nil =>
      obtain rfl : root = 0 := core.frames (.loop root) (by simp)
      refine .bubbling (core.reap rfl fun i => rfl) rfl fun d hd => ?_
      exact Registry.isDone_iff.mpr (core.forest.mem_finished hd)
    | cons t rest =>
      have core' : Core begun m.registry [] [.batch rest, .loop root] none :=
        (core.tail rfl fun _ => rfl).cons rfl (fun _ => rfl) trivial
      have nested : Nested none [.batch rest, .loop root] := .batch rest root
      unfold continueBatch
      cases hu : m.get? t with
      | none =>
        simp only [hu]
        exact .resting core' nested
      | some u =>
        simp only [hu]
        split
        · rename_i hsel
          have fresh := (core'.stands hu).fresh_of_selectable hsel
          exact .selected (core'.take nofun) nested hu (Or.inl ⟨fresh, core'.not_begun hu fresh⟩)
        · exact .resting core' nested

theorem sound_continueLoop (o : RunOptions) (core : Core begun m.registry [] [.loop 0] none) :
    (continueLoop o m 0).Sound begun := by
  rcases continueLoop_cases o m 0 with ⟨hend, heq⟩ | ⟨_, ⟨f, heq⟩ | ⟨_, _, trace, heq⟩⟩
  · rw [heq]
    simp only [settled, Bool.and_eq_true] at hend
    exact .settled core.forest hend.1
  · rw [heq]
    exact .aborted f core.forest
  · rw [heq]
    exact .resting (core.cons rfl (fun _ => rfl) trivial) (.batch _ 0)

theorem sound_proceed (o : RunOptions) (h : Rehearsal.Sound begun m.registry stack .done) :
    (proceed o m stack).Sound begun := by
  cases h with
  | settled forest root => exact .settled forest root
  | looking core _ => exact sound_continueLoop o core
  | resting core nested =>
    cases nested with
    | batch rest root => exact sound_continueBatch core (.batch rest root)
    | round finished rest root => exact sound_continueRound core (.round finished rest root)
    | forked child nested => exact sound_afterFork core nested
    | composite c nested =>
      exact sound_continueComposite c (core.tail rfl fun _ => rfl) nested
        (core.frames (.composite c) (List.mem_cons_self ..))

/-- **A step keeps a configuration sound.** -/
theorem sound_step (w : World σ) (o : RunOptions) {c : Config σ} (h : c.Sound begun) :
    (c.step w o).Sound (c.control.begins begun) := by
  obtain ⟨m, stack, control⟩ := c
  have hsame : (∀ t, control ≠ .start t) → control.begins begun = begun := Control.begins_eq
  cases control with
  | start t => exact sound_start w o h
  | done => exact (hsame nofun).symm ▸ sound_proceed o h
  | raised e => exact (hsame nofun).symm ▸ sound_catchException w h
  | abort f => exact (hsame nofun).symm ▸ sound_unwind h
  | answer a => exact (hsame nofun).symm ▸ sound_deliver w o h
  | drive t s => exact (hsame nofun).symm ▸ sound_drive w h
  | interpret t effect inComposite => exact (hsame nofun).symm ▸ sound_interpret w o h
  | runTask t => exact (hsame nofun).symm ▸ sound_runTask h
  | complete t v => exact (hsame nofun).symm ▸ sound_complete o h
  | fail t e => exact (hsame nofun).symm ▸ sound_fail o h
  | propagate t e => exact (hsame nofun).symm ▸ sound_propagate o h
  | bubble finished => exact (hsame nofun).symm ▸ sound_bubble o h

/-- The configuration a fresh run of the generator `g` starts from. -/
def launched (outer : σ) (name : String) (g : Nat) : Config σ :=
  ((Machine.initial outer).launch name g).1

theorem sound_launched (outer : σ) (name : String) (g : Nat) :
    (launched outer name g).Sound fun _ => False := by
  have hempty : ∀ p, (none : Option Nat) = some p → p < Registry.empty.size := nofun
  have hroot := Registry.Forest.get?_create_new (r := Registry.empty) name .now none false
    (some (.ofGenerator g)) none hempty
  have forest :
      (Registry.empty.create name .now none false (some (.ofGenerator g)) none).1.Forest :=
    Registry.Forest.empty.create nofun fun _ => Or.inl rfl
  have honly : ∀ {i t}, (Registry.empty.create name .now none false (some (.ofGenerator g))
      none).1.get? i = some t → i = 0 ∧ t.children = [] := by
    intro i t ht
    rcases Registry.get?_create_cases hempty ht with ⟨rfl, rfl⟩ | ⟨hlt, _⟩
    · exact ⟨rfl, rfl⟩
    · exact absurd hlt (Nat.not_lt_zero i)
  refine .driving (u := Task.fresh 0 name .now none false (some (.ofGenerator g)) none) ?_
    (.batch [] 0) hroot ⟨⟨rfl, rfl, rfl⟩, rfl, fun _ => nofun⟩
  constructor
  case forest => exact forest
  case frames =>
    intro f hf
    rcases List.mem_pair.mp hf with rfl | rfl
    · trivial
    · rfl
  case alone => exact List.nodup_nil
  case aside => exact fun _ _ => nofun
  case running => exact fun ht hi => (hi (congrArg some (honly ht).1.symm)).elim
  case hears =>
    intro i t ht c hc
    rw [(honly ht).2] at hc
    cases hc
  case standing => exact fun ht hi => (hi (congrArg some (honly ht).1.symm)).elim
  case once => exact fun h => h.elim

/-! ### Runs -/

theorem run_succ (w : World σ) (o : RunOptions) (n : Nat) (c : Config σ) :
    run w o (n + 1) c =
      if (run w o n c).isFinal then run w o n c else (run w o n c).step w o := by
  induction n generalizing c with
  | zero => rfl
  | succ n ih =>
    rw [run]
    by_cases hf : c.isFinal
    · rw [if_pos hf]
      have hstay : run w o (n + 1) c = c := by rw [run, if_pos hf]
      rw [hstay, if_pos hf]
    · have hgo : run w o (n + 1) c = run w o n (c.step w o) := by rw [run, if_neg hf]
      rw [if_neg hf, hgo]
      exact ih _

theorem run_succ_of_not_isFinal {w : World σ} {o : RunOptions} {n : Nat} {c : Config σ}
    (h : (run w o n c).isFinal = false) : run w o (n + 1) c = (run w o n c).step w o := by
  rw [run_succ, h]
  rfl

theorem run_of_isFinal (w : World σ) (o : RunOptions) (n : Nat) {c : Config σ}
    (h : c.isFinal = true) :
    run w o n c = c := by
  cases n with
  | zero => rfl
  | succ n => rw [run, if_pos h]

theorem run_add (w : World σ) (o : RunOptions) (k n : Nat) (c : Config σ) :
    run w o (k + n) c = run w o n (run w o k c) := by
  induction k generalizing c with
  | zero => rw [Nat.zero_add]; rfl
  | succ k ih =>
    rw [Nat.succ_add, run]
    by_cases hf : c.isFinal
    · rw [if_pos hf, run_of_isFinal w o (k + 1) hf, run_of_isFinal w o n hf]
    · rw [if_neg hf, ih, run, if_neg hf]

/-- From a sound configuration on, every configuration of a run is sound, and what has begun stays
so. -/
theorem sound_run (w : World σ) (o : RunOptions) {c : Config σ} (h : c.Sound begun) (n : Nat) :
    ∃ begun' : Nat → Prop, (∀ i, begun i → begun' i) ∧ (run w o n c).Sound begun' := by
  induction n with
  | zero => exact ⟨begun, fun _ => id, h⟩
  | succ n ih =>
    obtain ⟨begun', hle, hs⟩ := ih
    rw [run_succ]
    split
    · exact ⟨begun', hle, hs⟩
    · exact ⟨_, fun i hi => Or.inl (hle i hi), sound_step w o hs⟩

/-- **Every configuration that a fresh run reaches is sound**, whatever code the world answers
with. -/
theorem sound_reached (w : World σ) (o : RunOptions) (outer : σ) (name : String) (g n : Nat) :
    ∃ begun, (run w o n (launched outer name g)).Sound begun := by
  obtain ⟨begun, _, h⟩ := sound_run w o (sound_launched outer name g) n
  exact ⟨begun, h⟩

end Config

/-- What happens around the scheduler, written down beforehand: what each generator does whenever it
is resumed, and the plans of the calls in the order they are asked for. -/
structure Playbook where
  responses : Nat → List Response
  plans : List CallPlan

namespace Playbook

/-- The world that goes by its playbook. A generator past its last response returns, and a call past
the last plan is made at once. -/
def world : World Playbook where
  resume _ g _ s := match s.responses g with
    | [] => (.returned .null, s)
    | a :: rest => (a, { s with responses := fun h => if h = g then rest else s.responses h })
  plan _ _ _ s := match s.plans with
    | [] => (.ok .real, s)
    | p :: rest => (.ok p, { s with plans := rest })
  invoke _ _ s := (.ok .null, s)
  handler? _ := none

/-- What a run of generator 0 is after `n` steps. -/
def played (s : Playbook) (n : Nat) : Config Playbook :=
  Config.run world .default n (Config.launched s "root" 0)

end Playbook

end Rehearsal
