import Mathlib.Order.Basic
import Rehearsal.Proofs.Engine.Deferring
import Rehearsal.Proofs.Engine.Ticking

/-!
# The step ceiling only truncates

A run that ends without passing its ceiling is the same run under every ceiling that is not below
its final count. Under a lower one the same happens until the count is to pass that ceiling. If that
can be reported, the run is then given up, and nothing more is asked of the world.
-/
namespace Rehearsal

variable {σ : Type}

namespace Config

variable {w : World σ} {o : RunOptions} {c : Config σ}

/-- While the count passes neither ceiling, two runs are the same. -/
theorem run_within (w : World σ) (c : Config σ) {limit k : Nat}
    (ho : (run w o k c).machine.steps ≤ o.stepLimit) (hl : (run w o k c).machine.steps ≤ limit) :
    run w (o.within limit) k c = run w o k c := by
  induction k with
  | zero => rfl
  | succ k ih =>
    have hcount := steps_run_succ w o k c
    have hmono := steps_run_mono w o c (Nat.le_succ k)
    have hsame := ih (by omega) (by omega)
    have hnext : (run w o k c).step w (o.within limit) = (run w o k c).step w o := by
      refine step_within w fun hticks => ?_
      simp only [hticks, if_true] at hcount
      omega
    rw [run_succ, run_succ, hsame, hnext]

/-- Before the count exceeds a number that it exceeds in the end, there is a last configuration at
that number, whose step is counted. -/
theorem exists_ticks_at (w : World σ) (c : Config σ) {limit n : Nat}
    (hstart : c.machine.steps ≤ limit)
    (hend : limit < (run w o n c).machine.steps) :
    ∃ k < n, (run w o k c).machine.steps = limit ∧ (run w o k c).ticks o = true := by
  induction n with
  | zero => exact absurd hend (by simpa [run] using hstart)
  | succ n ih =>
    by_cases hbefore : limit < (run w o n c).machine.steps
    · obtain ⟨k, hk, h⟩ := ih hbefore
      exact ⟨k, Nat.lt_succ_of_lt hk, h⟩
    · have hcount := steps_run_succ w o n c
      cases hticks : (run w o n c).ticks o with
      | true =>
        simp only [hticks, if_true] at hcount
        exact ⟨n, Nat.lt_succ_self n, by omega, hticks⟩
      | false =>
        simp only [hticks, Bool.false_eq_true, if_false] at hcount
        omega

/-- The counted step that passes the ceiling gives up the run, if that can be reported: the run ends
with that report, and asks nothing more of the world. -/
theorem run_past {begun : Nat → Prop} (hc : c.Sound begun) (hticks : c.ticks o = true)
    (hat : c.machine.steps = o.stepLimit) (short : c.machine.registry.waitsLong = false) :
    ∃ dump n, (run w o n c).isFinal = true ∧
      (run w o n c).control = .abort (.harness (.stopped dump (o.stepLimit + 1) .stepLimit)) ∧
      (run w o n c).machine.steps = o.stepLimit + 1 ∧
      (run w o n c).machine.outer = c.machine.outer := by
  obtain ⟨below, dump, hstep⟩ := step_past w hticks hat.ge short
  rw [hat] at hstep
  have hfinal : c.isFinal = false := by
    cases hf : c.isFinal with
    | false => rfl
    | true => rw [not_ticks_of_isFinal hf] at hticks; cases hticks
  have habort :
      (c.step w o).control = .abort (.harness (.stopped dump (o.stepLimit + 1) .stepLimit)) := by
    rw [hstep]
  obtain ⟨n, hn⟩ := exists_isFinal_of_abort (w := w) (o := o) (sound_step w o hc) habort
  obtain ⟨hsteps, houter⟩ := giveUp_run w o habort n
  refine ⟨dump, n + 1, ?_⟩
  rw [run_one w o hfinal]
  exact ⟨hn, run_abort w o habort n, hsteps.trans (by rw [hstep]; exact congrArg (· + 1) hat),
    houter.trans (by rw [hstep]; rfl)⟩

/-- Under the ceiling, the run is the one with the options `o` as far as its configuration `k`. The
next step would pass the ceiling. If that can be reported the run ends with the report, and asks
nothing more of the world; otherwise it goes on with the exception that takes the place of the
report. -/
structure CutOff (w : World σ) (o : RunOptions) (limit : Nat) (c : Config σ) (k : Nat) : Prop where
  same : ∀ j ≤ k, run w (o.within limit) j c = run w o j c
  ends : (run w o k c).machine.registry.waitsLong = false →
    ∃ dump m, (run w (o.within limit) m c).isFinal = true ∧
      (run w (o.within limit) m c).control =
        .abort (.harness (.stopped dump (limit + 1) .stepLimit)) ∧
      (run w (o.within limit) m c).machine.steps = limit + 1 ∧
      (run w (o.within limit) m c).machine.outer = (run w o k c).machine.outer
  fails : (run w o k c).machine.registry.waitsLong = true →
    (run w (o.within limit) (k + 1) c).machine = (run w o k c).machine.counted ∧
      ((run w (o.within limit) (k + 1) c).control =
          .raised (run w o k c).machine.counted.unwritable ∨
        (run w (o.within limit) (k + 1) c).control =
          .abort (.exn (run w o k c).machine.counted.unwritable))

/-- A run is cut off where its count stands at the lower ceiling and the next step is to be counted.
-/
theorem cutOff_of_ticks {begun : Nat → Prop} {limit k : Nat} (hsound : (run w o k c).Sound begun)
    (hticks : (run w o k c).ticks o = true) (hat : (run w o k c).machine.steps = limit)
    (hle : limit ≤ o.stepLimit) : CutOff w o limit c k := by
  have hsame : ∀ j ≤ k, run w (o.within limit) j c = run w o j c := by
    intro j hj
    have hcount := steps_run_mono w o c hj
    exact run_within w c (by omega) (by omega)
  have hfinal : (run w o k c).isFinal = false := by
    cases hf : (run w o k c).isFinal with
    | false => rfl
    | true => rw [not_ticks_of_isFinal hf] at hticks; cases hticks
  refine ⟨hsame, fun short => ?_, fun long => ?_⟩
  · obtain ⟨dump, m, hfinal, hcontrol, hsteps, houter⟩ :=
      run_past (w := w) (o := o.within limit) hsound hticks hat short
    rw [← hsame k (Nat.le_refl k), ← run_add] at hfinal hcontrol hsteps houter
    rw [hsame k (Nat.le_refl k)] at houter
    exact ⟨dump, k + m, hfinal, hcontrol, hsteps, houter⟩
  · have hbalks : (run w o k c).Unreportable (o.within limit) := ⟨hticks, hat.ge, long⟩
    have hnext : run w (o.within limit) (k + 1) c = (run w o k c).step w (o.within limit) := by
      rw [run_succ, hsame k (Nat.le_refl k), if_neg (by simp [hfinal])]
    rcases hbalks.step w with ⟨_, _, _, _, hstep⟩ | ⟨_, _, _, _, hstep⟩
    · rw [hnext, hstep]
      exact ⟨rfl, .inl rfl⟩
    · rw [hnext, hstep]
      exact ⟨rfl, .inr rfl⟩

/-- A run does not come to where it would with a higher ceiling: it is over for having passed its
own, or stands where it would have to report that and cannot; or, whatever the ceiling, it is given
up over a trace. -/
inductive CutShort (o : RunOptions) (bound : Nat) (c : Config σ) : Prop
  | reported (low : o.stepLimit < bound) (final : c.isFinal = true) {dump : TaskDump}
      (control : c.control = .abort (.harness (.stopped dump (o.stepLimit + 1) .stepLimit)))
  | unreportable (low : o.stepLimit < bound) (balks : c.Unreportable o)
  | untraced (untraced : c.Untraced o)

/-- With the default options nothing is traced, and the ceiling is high. -/
theorem CutShort.not_default {bound : Nat} (h : c.CutShort .default bound) (high : bound ≤ 10000) :
    False := by
  cases h with
  | reported low _ _ => exact Nat.not_lt.mpr high low
  | unreportable low _ => exact Nat.not_lt.mpr high low
  | untraced untraced =>
    obtain ⟨⟨_, h | h⟩, _⟩ := untraced.untraceable <;> cases h

/-- Where a run gets under a higher ceiling it gets under its own as well, configuration by
configuration, or it is cut off on the way. -/
theorem same_or_cutOff (w : World σ) (o : RunOptions) (outer : σ) (name : String)
    (g : Nat) {limit n : Nat}
    (hlimit : o.stepLimit ≤ limit)
    (hsteps : (run w (o.within limit) n (launched outer name g)).machine.steps ≤ limit) :
    (¬ (run w o n (launched outer name g)).Exceeded o ∧
      ∀ k ≤ n, run w o k (launched outer name g) =
        run w (o.within limit) k (launched outer name g)) ∨
    ∃ k < n, CutOff w (o.within limit) o.stepLimit (launched outer name g) k ∧
      (run w o k (launched outer name g)).ticks o = true ∧
      (run w o k (launched outer name g)).machine.steps = o.stepLimit := by
  generalize hlarge : o.within limit = large at hsteps ⊢
  have hsame : large.within o.stepLimit = o := hlarge ▸ rfl
  obtain rfl : large.stepLimit = limit := hlarge ▸ rfl
  rcases Nat.lt_or_ge o.stepLimit
    (run w large n (launched outer name g)).machine.steps with hend | hend
  · obtain ⟨k, hk, hat, hticks⟩ := exists_ticks_at w (launched outer name g) (Nat.zero_le _) hend
    obtain ⟨begun, hc⟩ := sound_reached w large outer name g k
    have hcut := cutOff_of_ticks hc hticks hat hlimit
    have hrun := hcut.same k (Nat.le_refl k)
    rw [hsame] at hrun
    refine Or.inr ⟨k, hk, hcut, ?_, hrun ▸ hat⟩
    rw [hrun, ← hsame]
    exact hticks
  · have hrun : ∀ k ≤ n, run w o k (launched outer name g) =
      run w large k (launched outer name g) := by
      intro k hk
      have hcount := steps_run_mono w large (launched outer name g) hk
      have hrun := run_within w (launched outer name g) (hcount.trans hsteps) (hcount.trans hend)
      rwa [hsame] at hrun
    refine Or.inl ⟨?_, hrun⟩
    rw [hrun n (Nat.le_refl n)]
    exact Nat.not_lt.mpr hend

/-- A run that is cut off comes to where it reports that, or cannot. -/
theorem CutOff.cutShort {w : World σ} {limit bound k : Nat}
    (h : CutOff w (o.within limit) o.stepLimit c k)
    (hticks : (run w o k c).ticks o = true) (hat : (run w o k c).machine.steps = o.stepLimit)
    (low : o.stepLimit < bound) : ∃ n, (run w o n c).CutShort o bound := by
  have hsame : (o.within limit).within o.stepLimit = o := rfl
  have hrun := h.same k (Nat.le_refl k)
  rw [hsame] at hrun
  cases hlong : (run w o k c).machine.registry.waitsLong with
  | true => exact ⟨k, .unreportable low ⟨hticks, hat.ge, hlong⟩⟩
  | false =>
    obtain ⟨dump, n, hfinal, hcontrol, _⟩ := h.ends (hrun ▸ hlong)
    rw [hsame] at hfinal hcontrol
    exact ⟨n, .reported low hfinal hcontrol⟩

def Traceable (w : World σ) (o : RunOptions) (c : Config σ) :
    Prop := ∀ n, ¬ (run w o n c).Untraced o

theorem Traceable.run {w : World σ} (h : c.Traceable w o) (k : Nat) :
    (Config.run w o k c).Traceable w o := by
  intro n
  rw [← run_add]
  exact h (k + n)

/-- What a run comes to if its ceiling is not below the bound it comes to under any ceiling, or is
cut short. What `P` says of the runs may go by all that lies before. -/
theorem reaches_or_cutShort (w : World σ) (o : RunOptions) (outer : σ) (name : String)
    (g : Nat) {bound : Nat}
    {P : (Nat → Config σ) → Nat → Prop} (near : ∀ {f f' n}, (∀ k ≤ n, f k = f' k) → P f' n → P f n)
    (h : ∀ o : RunOptions, bound ≤ o.stepLimit → Traceable w o (launched outer name g) →
      ∃ n, ¬ (run w o n (launched outer name g)).Exceeded o ∧
      P (fun k => run w o k (launched outer name g)) n) :
    (∃ n, P (fun k => run w o k (launched outer name g)) n) ∨
      ∃ n, (run w o n (launched outer name g)).CutShort o bound := by
  rcases Nat.lt_or_ge o.stepLimit bound with low | high
  · -- what the run comes to under a ceiling at the bound, it comes to or is cut off before
    have hlarge :
        ∃ n, ¬ (run w (o.within bound) n (launched outer name g)).Exceeded (o.within bound) ∧
        (P (fun k => run w (o.within bound) k (launched outer name g)) n ∨
          (run w (o.within bound) n (launched outer name g)).Untraced (o.within bound)) := by
      by_cases traceable : Traceable w (o.within bound) (launched outer name g)
      · obtain ⟨n, within, hn⟩ := h (o.within bound) (Nat.le_refl bound) traceable
        exact ⟨n, within, .inl hn⟩
      · simp only [Traceable, not_forall, not_not] at traceable
        obtain ⟨n, untraced⟩ := traceable
        exact ⟨n, untraced.within, .inr untraced⟩
    obtain ⟨n, within, hn⟩ := hlarge
    rcases same_or_cutOff w o outer name g low.le (Nat.not_lt.mp within) with
      ⟨within', same⟩ | ⟨k, _, cut, hticks, hat⟩
    · rcases hn with hn | untraced
      · exact .inl ⟨n, near same hn⟩
      · rw [← same n (Nat.le_refl n)] at untraced
        exact .inr ⟨n, .untraced ⟨untraced.untraceable, within', untraced.unwritten⟩⟩
    · exact .inr (cut.cutShort hticks hat low)
  · by_cases traceable : Traceable w o (launched outer name g)
    · obtain ⟨n, _, hn⟩ := h o high traceable
      exact .inl ⟨n, hn⟩
    · simp only [Traceable, not_forall, not_not] at traceable
      obtain ⟨n, untraced⟩ := traceable
      exact .inr ⟨n, .untraced untraced⟩

end Config

/-- A root that forks a call made a step later, and joins it under a number too long to be written.
-/
def Playbook.joiningUnwritably : Playbook where
  responses
    | 0 => [.yielded (.effect (.fork .null [] [] false)),
        .yielded (.effect (.join (.keyed false [(.int (Nat.pow 10 4300), ⟨1, "work", true⟩)])))]
    | _ => []
  plans := [⟨false, .null, none, .tick 1⟩]

end Rehearsal
