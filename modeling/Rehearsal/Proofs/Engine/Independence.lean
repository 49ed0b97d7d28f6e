import Rehearsal.Proofs.Engine.Assembling
import Rehearsal.Proofs.Engine.Ceiling
import Rehearsal.Proofs.Engine.Deferring

/-!
# Gathers do not depend on scheduling

What a run gathers is what the tree says, whether a call was made while the tree was looked at or
rounds later, and in whatever order the calls came.
-/
namespace Rehearsal

variable {σ : Type} {w : World σ} {o : RunOptions} {g : Nat} {tree : Assembly} {outer : σ}

namespace Config

/-- The saga is asked first, and yields the tree. -/
theorem ripens_launched (h : w.Gathers g tree outer) (o : RunOptions) (name : String) :
    (run w o 1 (launched outer name g)).Ripens w g tree.value (3 * tree.size)
      (fun _ => tree.value) [tree] := by
  obtain ⟨m, hstep, ⟨u₀, hu₀, hco, _, he⟩, hsize, hpending, _, hsteps, houter⟩ :=
    step_launched w o outer name g
  obtain ⟨s, hs, hplans⟩ := h m.view
  have hrun : run w o 1 (launched outer name g) =
      ⟨m.holding 0 ⟨[g], true⟩ s, [.driving 0, .batch [], .loop 0],
        .interpret 0 tree.effect false⟩ := by
    rw [run_one w o rfl 0]
    exact hstep.trans (resume_yields hu₀ hco (Or.inr rfl) (houter ▸ hs))
  have hsize' : (m.holding 0 ⟨[g], true⟩ s).registry.size = 1 :=
    (Registry.size_modify ..).trans hsize
  have honly : ∀ t u, (m.holding 0 ⟨[g], true⟩ s).registry.get? t = some u →
      t = 0 ∧ u.error = none ∧ u.coroutine = Coroutine.ofRoot g 0 := by
    intro t u hu
    have hlt := Registry.get?_eq_some_lt hu
    obtain rfl : t = 0 := by omega
    obtain rfl := Option.some.inj ((Machine.get?_holding hu₀ ⟨[g], true⟩ s).symm.trans hu)
    exact ⟨rfl, he, rfl⟩
  have hpending' : (m.holding 0 ⟨[g], true⟩ s).registry.pending = [0] := hpending
  rw [hrun]
  refine ⟨.asking (.root (.batch [])) rfl false, ⟨?_, rfl⟩,
    fun t u hu => (honly t u hu).2.1, ?_, ?_, ?_, ?_,
    fun hn => (hn trivial).elim⟩
  · show 0 < (m.holding 0 ⟨[g], true⟩ s).registry.size
    omega
  · intro t u hu _
    obtain ⟨rfl, _, hco⟩ := honly t u hu
    exact hco
  · intro t u hu
    obtain ⟨rfl, _, _⟩ := honly t u hu
    exact Or.inl (Or.inl (List.mem_cons_self ..))
  · intro u _ _
    rw [List.flatMap_singleton]
    exact hplans
  · show m.steps + (m.holding 0 ⟨[g], true⟩ s).registry.pending.length + 3 *
      ([tree].map Assembly.size).sum ≤
      3 * tree.size + 1
    simp only [hsteps, hpending', List.map_singleton, List.sum_singleton, List.length_singleton]
    omega

/-- As long as the run goes on all tasks ripen, those that are there to what was said of them. -/
theorem Ripens.run {c : Config σ} {begun : Nat → Prop} {outcome : Value}
    {budget : Nat} {val : Nat → Value}
    {later : List Assembly} (h : c.Ripens w g outcome budget val later) (hc : c.Sound begun)
    (hlimit : budget ≤ o.stepLimit) (traceable : c.Traceable w o) (n : Nat) :
    ∃ val' later', (∀ d < c.machine.registry.size, val' d = val d) ∧
      (Config.run w o n c).Ripens w g outcome budget val' later' := by
  induction n with
  | zero => exact ⟨val, later, fun _ _ => rfl, h⟩
  | succ n ih =>
    obtain ⟨val', later', hsame, ih⟩ := ih
    obtain ⟨begun', _, hc'⟩ := sound_run w o hc n
    rw [run_succ]
    cases hf : (Config.run w o n c).isFinal with
    | true => exact ⟨val', later', hsame, ih⟩
    | false =>
      have hnext : (Config.run w o (n + 1) c) = (Config.run w o n c).step w o :=
        run_succ_of_not_isFinal hf
      obtain ⟨val'', later'', hsame', h''⟩ :=
        (ih.step hc' hlimit hf).resolve_right (hnext ▸ traceable (n + 1))
      exact ⟨val'', later'', fun d hd => (hsame' d (Nat.lt_of_lt_of_le hd (size_run w o n))).trans
        (hsame d hd), h''⟩

/-- As long as all tasks ripen the count does not pass its ceiling. -/
theorem Ripens.not_unreportable {c : Config σ} {begun : Nat → Prop} {outcome : Value} {budget : Nat}
    {val : Nat → Value} {later : List Assembly}
    (h : c.Ripens w g outcome budget val later) (hc : c.Sound begun)
    (hlimit : budget ≤ o.stepLimit) : ¬ c.Unreportable o := by
  intro balks
  have hf : c.isFinal = false := by
    cases hf : c.isFinal with
    | false => rfl
    | true => cases (not_ticks_of_isFinal hf).symm.trans balks.ticks
  have hpast := balks.past
  rcases h.step hc hlimit hf with ⟨_, _, _, ripens⟩ | untraced
  · obtain ⟨not_abort, _, not_raised⟩ := ripens.accords.no_failure
    rcases balks.step w with ⟨_, _, _, _, hstep⟩ | ⟨_, _, _, _, hstep⟩
    · exact not_raised _ (congrArg Config.control hstep)
    · exact not_abort _ (congrArg Config.control hstep)
  · have within := untraced.within
    rcases balks.step w with ⟨_, _, _, _, hstep⟩ | ⟨_, _, _, _, hstep⟩ <;> rw [hstep] at within <;>
      exact within (Nat.lt_succ_of_le hpast)

/-- Nor has it passed the ceiling when they have ripened. -/
theorem Ripens.not_exceeded {c : Config σ} {outcome : Value} {budget : Nat} {val : Nat → Value}
    {later : List Assembly} (h : c.Ripens w g outcome budget val later) (idle : ¬ c.Owes)
    (hlimit : budget ≤ o.stepLimit) : ¬ c.Exceeded o := by
  have hcost := h.solvent idle
  unfold cost at hcost
  exact Nat.not_lt.mpr (by omega)

/-- When all tasks ripen the run ends with nothing left to do. -/
theorem Ripens.returned {c : Config σ} {outcome : Value} {budget : Nat} {val : Nat → Value}
    {later : List Assembly} (h : c.Ripens w g outcome budget val later) (hf : c.isFinal = true) :
    c.Returned := by
  obtain ⟨m, stack, control⟩ := c
  have haccords : Accords val m.registry.size stack control later := h.accords
  cases haccords with
  | settled => exact ⟨rfl, rfl⟩
  | resting between =>
    cases between with
    | grounded hg => cases hg <;> cases hf
    | composite _ _ => cases hf
  | _ => simp [isFinal] at hf

/-- A run that has ended so has the outcome. -/
theorem Ripens.ending_eq {c : Config σ} {begun : Nat → Prop} {outcome : Value}
    {budget : Nat} {val : Nat → Value}
    {later : List Assembly} (h : c.Ripens w g outcome budget val later) (hc : c.Sound begun)
    (hf : c.isFinal = true) : c.ending = .ok outcome := by
  have hreturned := h.returned hf
  have hresult := (h.fulfils hc 0 (hc.root_over hreturned)).trans h.root.2
  obtain ⟨m, _, _⟩ := c
  obtain ⟨rfl, rfl⟩ := hreturned
  exact congrArg Except.ok hresult

/-- The run comes to its end with all tasks ripe. -/
theorem Ripens.exists_isFinal {c : Config σ} {begun : Nat → Prop} {outcome : Value} {budget : Nat}
    {val : Nat → Value} {later : List Assembly}
    (h : c.Ripens w g outcome budget val later) (hc : c.Sound begun)
    (hlimit : budget ≤ o.stepLimit) (traceable : c.Traceable w o) :
    ∃ n, (Config.run w o n c).isFinal = true := by
  obtain ⟨n, hn | balks⟩ := exists_isFinal_or_unreportable w o hc
  · exact ⟨n, hn⟩
  · obtain ⟨_, _, _, hr⟩ := h.run hc hlimit traceable n
    obtain ⟨_, _, hc'⟩ := sound_run w o hc n
    exact (hr.not_unreportable hc' hlimit balks).elim

/-- Where the limit allows for three steps for every call and gather, the run ends with the value of
the tree. -/
theorem exists_ending (h : w.Gathers g tree outer) (name : String)
    (hlimit : 3 * tree.size ≤ o.stepLimit)
    (traceable : Traceable w o (launched outer name g)) :
    ∃ n, ¬ (run w o n (launched outer name g)).Exceeded o ∧
      (run w o n (launched outer name g)).isFinal = true ∧
      (run w o n (launched outer name g)).ending = .ok tree.value := by
  obtain ⟨begun, hc⟩ := sound_reached w o outer name g 1
  have hripens := ripens_launched h o name
  obtain ⟨n, hn⟩ := hripens.exists_isFinal hc hlimit (traceable.run 1)
  obtain ⟨val, later, _, hr⟩ := hripens.run hc hlimit (traceable.run 1) n
  obtain ⟨begun', _, hc'⟩ := sound_run w o hc n
  refine ⟨1 + n, ?_⟩
  rw [run_add]
  refine ⟨hr.not_exceeded (fun owes => ?_) hlimit, hn, hr.ending_eq hc' hn⟩
  obtain ⟨hstack, hcontrol⟩ := hr.returned hn
  simp only [Owes, hstack, hcontrol] at owes

end Config

/-- The world of a saga that gathers the tree. It knows whether the saga has been asked and which
calls are still to be planned; the wait of a call goes by how many follow it. -/
def Assembly.world (tree : Assembly) (waits : Nat → Wait) : World (Bool × List (Call × Value)) where
  resume _ _ signal s :=
    match signal with
    | .send v => if s.1 then (.returned v, s) else (.yielded tree.effect, true, s.2)
    | .throw e => (.raised e, s)
  plan _ _ _ s :=
    match s.2 with
    | [] => (.error (.harness (.plain "no plan")), s)
    | e :: rest => (.ok ⟨false, e.2, none, waits rest.length⟩, s.1, rest)
  invoke _ _ s := (.ok .null, s)
  handler? _ := none

/-- Every tree can be planned, with any waits. -/
theorem Assembly.gathers_world (tree : Assembly) (waits : Nat → Wait) (g : Nat) :
    (tree.world waits).Gathers g tree (false, tree.calls) := by
  have hplans :
      ∀ calls, (tree.world waits).Plans ((tree.world waits).Echoes g) calls (true, calls) := by
    intro calls
    induction calls with
    | nil => exact fun view v => ⟨_, rfl⟩
    | cons e rest ih => exact fun view => ⟨_, _, rfl, ih⟩
  exact fun view => ⟨_, rfl, hplans tree.calls⟩

def Assembly.ofInt (n : Int) : Assembly := .call ⟨.null, [], []⟩ (.int n) (by simp)

/-- A dict of a list of two calls and of another call. -/
def Assembly.sample : Assembly :=
  .keyed false [(.text "both", .listed [.ofInt 1, .ofInt 2]), (.text "one", .ofInt 3)]

/-- The world of that dict, where the first call is made last, the second at once, and the third
after a while. -/
def Assembly.sampleWorld : World (Bool × List (Call × Value)) :=
  sample.world fun following => if following = 2 then .last else if following =
    1 then .now else .tick 5

end Rehearsal
