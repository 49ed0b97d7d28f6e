import Rehearsal.Proofs.Engine.Containment

/-!
# A failure is thrown into a task once

What stems from a failure comes to a task after everybody below it has failed, and goes on from it
only if the task fails of it. Frames that could raise the failure again stand above a task that is
resumed no more, so nothing comes back to where it has been.
-/
namespace Rehearsal

variable {σ : Type} {begun : Nat → Prop}

namespace Registry

/-- Tasks stay, with their parents. -/
def Extends (r r' : Registry) : Prop :=
  ∀ i u, r.get? i = some u → ∃ u', r'.get? i = some u' ∧ u'.parent = u.parent

namespace Climb

variable {r r' : Registry} {passed : Nat → Prop} {t u p : Nat}

theorem encloses_later (h : r.Climb passed t u) (hr : r.Extends r') : r'.Encloses u t := by
  induction h with
  | here => exact Or.inl rfl
  | up _ task parent _ _ _ ih =>
    obtain ⟨v, hv, hp⟩ := hr _ _ task
    rw [parent] at hp
    rcases ih with rfl | ih
    · exact Or.inr (.child hv hp)
    · exact Or.inr (ih.above hv hp)

/-- Whoever encloses the bottom has been climbed past, or encloses the top. -/
theorem passed_or_encloses (h : r.Climb passed t u) (hr : r.Extends r') (hp : r'.Encloses p t) :
    passed p ∨ r'.Encloses p u := by
  induction h with
  | here => exact Or.inr hp
  | up _ task parent _ _ past ih =>
    rcases ih with ih | rfl | ih
    · exact Or.inl ih
    · exact Or.inl past
    · obtain ⟨v, hv, hparent⟩ := hr _ _ task
      obtain ⟨q, hq, he⟩ := ih.parent hv
      rw [hparent, parent, Option.some.injEq] at hq
      exact Or.inr (hq ▸ he)

end Climb

end Registry

/-- An exception that has been thrown into a task is gone, unless the task fails. -/
theorem Turn.after_throw {o : RunOptions} {c c' : Config σ} {p : Nat}
    {e e' : Exn} (turn : Turn o c c')
    (h : c.resumption? p = some (.throw e)) (hr : c'.control.exn? = some e') :
    c'.control = .fail p e' := by
  obtain ⟨below, resumes⟩ := Config.resumption?_eq_some.mp h
  cases turn with
  | escapes resumes' _ =>
    rw [resumes.unique resumes']
    cases hr
    rfl
  | refuses _ _ _ _ _ => cases resumes
  | condemns _ _ _ => cases resumes
  | rethrows _ _ _ _ => cases resumes
  | runs _ _ _ => cases resumes
  | starts _ _ _ => cases resumes
  | climbs _ _ _ _ => cases resumes
  | picks _ _ _ _ => cases resumes
  | sinks _ _ _ => cases resumes
  | fails _ _ _ => cases resumes
  | _ => cases hr

namespace Config

variable {w : World σ} {o : RunOptions} {c : Config σ} {t n p : Nat}

theorem extends_run (w : World σ) (o : RunOptions) (c : Config σ) {k : Nat} (hk : k ≤ n) :
    (run w o k c).machine.registry.Extends (run w o n c).machine.registry := by
  intro i u hu
  obtain ⟨j, rfl⟩ := Nat.exists_eq_add_of_le hk
  obtain ⟨u', hu', onward⟩ := onward_run w o hu j
  rw [run_add]
  exact ⟨u', hu', onward.parent⟩

/-- Where a ward that has failed on account of `t` is waited for, an exception of `t` is thrown into
nobody any more that it had come to. -/
theorem not_thrown_of_tended (hc : c.Underway) {k m a : Nat} {e e' : Exn} {below : List Frame}
    (h : Stems w o c t k) (hf : (run w o k c).control = .fail a e) (hk : k < n) (hm : n ≤ m)
    (live : (run w o m c).Underway) (ht : Tended a below (run w o m c).stack)
    (climb : (run w o n c).machine.registry.Climb (Passed w o c t n) t p)
    (hr : (run w o n c).resumption? p = some (.throw e')) : False := by
  obtain ⟨begun, hs⟩ := hc.sound
  have hn : (run w o n c).Underway := hc.run w o n fun f => not_abort_of_run w o hm live.live f
  have huk := h.underway hc
  obtain ⟨_, _, hsn⟩ := sound_run w o hs n
  obtain ⟨_, _, hsk⟩ := sound_run w o hs k
  have forest := Rehearsal.Sound.forest hsn
  obtain ⟨v, hv, hale⟩ := hale_of_resumption hsn hr
  obtain ⟨u, hu, _⟩ := failing_task hsk hf
  -- the ward was waited for above the same frames all along
  have hsize : ∀ j, k ≤ j → a < (run w o j c).machine.registry.size := by
    intro j hj
    refine Nat.lt_of_lt_of_le (Registry.get?_eq_some_lt hu) ?_
    obtain ⟨i, rfl⟩ := Nat.exists_eq_add_of_le hj
    rw [run_add]
    exact size_run w o i
  have htn : Tended a below (run w o n c).stack :=
    tended_run hc hm live ht (hsize n (Nat.le_of_lt hk))
  have htk : Tended a below (run w o k c).stack :=
    tended_run hc (Nat.le_trans (Nat.le_of_lt hk) hm) live ht (hsize k (Nat.le_refl k))
  have hextends := extends_run w o c (Nat.le_of_lt hk)
  have hrunner : ∀ q ∈ runners below, q ≠ p ∧ ¬ Passed w o c t n q := by
    intro q hq
    obtain ⟨uq, huq, _, free⟩ := hn.runs (htn.runners_subset hq)
    refine ⟨?_, not_passed_of_hale hc huq free.error⟩
    rintro rfl
    rw [unresumed_of_tops hsn nofun htn hq] at hr
    cases hr
  have hpast : ¬ Passed w o c t k p := fun hpast =>
    not_passed_of_hale hc hv hale (hpast.mono (Nat.le_of_lt hk))
  have hclear : ∀ q ∈ runners below, (run w o n c).machine.registry.Encloses q t →
      ¬ (run w o n c).machine.registry.Encloses p q := by
    rintro q hq hqt (rfl | hpq)
    · exact (hrunner p hq).1 rfl
    · obtain ⟨_, hclear⟩ := climb.clear forest hqt hpq
      exact (hrunner q hq).2 hclear.past
  obtain ⟨b, hb, borne⟩ := h.borne hc
  simp only [bearer?, hf, Option.some.injEq] at hb
  subst hb
  cases borne with
  | aside climb' owner _ _ _ =>
    obtain ⟨g, hstack, hg⟩ := huk.top_of_subject (by rw [hf]; rfl) htk
    rw [hstack, owner?_of_ward hg] at owner
    exact hclear _ (mem_runners_of_owner? owner) (climb'.encloses_later hextends)
      ((climb'.passed_or_encloses hextends climb.encloses).resolve_left hpast)
  | straight climb' =>
    have hat := climb'.encloses_later hextends
    rcases (climb'.passed_or_encloses hextends climb.encloses).resolve_left hpast with rfl | hpa
    · exact Nat.not_le_of_lt hk (le_of_hale w o hs hf hv hale)
    · obtain ⟨u', hu', _⟩ := hextends _ _ hu
      obtain ⟨q, hparent, hpq⟩ := hpa.parent hu'
      have hqt : (run w o n c).machine.registry.Encloses q t := by
        rcases hat with rfl | hat
        · exact Or.inr (.child hu' hparent)
        · exact Or.inr (hat.above hu' hparent)
      exact hclear q (hn.parent_runs htn hu' hparent).1 hqt hpq

/-- After an exception has been thrown into `p`, nothing goes on that stems from the same failure
unless `p` fails. -/
theorem failed_of_stems (hc : c.Underway) {k : Nat} {e : Exn} (h : Stems w o c t k)
    (hr : (run w o k c).resumption? p = some (.throw e)) (hlater : Stems w o c t n) (hk : k < n) :
    ∃ j ≤ n, ∃ e', (run w o j c).control = .fail p e' := by
  obtain ⟨climb, _⟩ := h.climb_of_throw hc hr
  obtain ⟨begun, hs⟩ := hc.sound
  induction hlater with
  | fails control =>
    exfalso
    obtain ⟨i, hi, e₀, hf⟩ := h.origin
    obtain rfl := fails_once w o hs hf control
    exact Nat.lt_irrefl _ (Nat.lt_of_lt_of_le hk hi)
  | @carried m _ hm next ih =>
    rcases Nat.lt_or_eq_of_le (Nat.le_of_lt_succ hk) with hlt | rfl
    · obtain ⟨j, hj, hf⟩ := ih hlt
      exact ⟨j, Nat.le_succ_of_le hj, hf⟩
    · have hu := h.underway hc
      obtain ⟨_, he⟩ := h.exn
      exact ⟨k + 1, Nat.le_refl _, _, (turn_run hu (hu.not_isFinal he)).after_throw hr next⟩
  | @raisedAgain k' m a _ _ f below hstems failed later control stack ward next ih =>
    rcases Nat.lt_or_ge k k' with hlt | hge
    · obtain ⟨j, hj, hf⟩ := ih hlt
      exact ⟨j, Nat.le_succ_of_le (Nat.le_trans hj (Nat.le_of_lt later)), hf⟩
    · exfalso
      have hne : k' ≠ k := by
        rintro rfl
        rw [resumption?_of_fail failed] at hr
        cases hr
      have hlive : (run w o m c).Underway := hc.run w o m fun f hf => by
        rw [control] at hf
        cases hf
      have ht : Tended a below (run w o m c).stack := by
        rw [stack]
        exact .top ward
      exact not_thrown_of_tended hc hstems failed (Nat.lt_of_le_of_ne hge hne)
        (Nat.le_of_lt_succ hk)
        hlive ht climb hr

/-- **A failure is thrown into a task at most once.** -/
theorem thrown_once (hc : c.Underway) {k : Nat} {e e' : Exn} (h : Stems w o c t k)
    (hr : (run w o k c).resumption? p = some (.throw e)) (h' : Stems w o c t n)
    (hr' : (run w o n c).resumption? p = some (.throw e')) : k = n := by
  obtain ⟨begun, hs⟩ := hc.sound
  have hlt : ∀ {k n : Nat} {e e' : Exn}, Stems w o c t k →
      (run w o k c).resumption? p = some (.throw e) → Stems w o c t n →
      (run w o n c).resumption? p = some (.throw e') → ¬ k < n := by
    intro k n e e' h hr h' hr' hk
    obtain ⟨j, hj, e₀, hf⟩ := failed_of_stems hc h hr h' hk
    obtain ⟨_, _, hsn⟩ := sound_run w o hs n
    obtain ⟨v, hv, hale⟩ := hale_of_resumption hsn hr'
    obtain rfl := Nat.le_antisymm hj (le_of_hale w o hs hf hv hale)
    rw [resumption?_of_fail hf] at hr'
    cases hr'
  exact Nat.le_antisymm (Nat.not_lt.mp (hlt h' hr' h hr)) (Nat.not_lt.mp (hlt h hr h' hr'))

end Config

end Rehearsal
