import Rehearsal.Proofs.Engine.Delivery

/-!
# What a blocked composite waits for

A race or gather that blocks its owner waits for every member that is not over, and goes on doing so
for as long as the owner stays blocked, whatever else happens.
-/
namespace Rehearsal

variable {σ : Type} {begun : Nat → Prop} {t d : Nat} {u : Task} {i : Interruption}

/-- The placeholders of the members. -/
def Composite.members (k : Composite) : List Nat := k.made.map (·.2)

/-- All members of `k` have been looked at, and it is about to be concluded. -/
structure Config.Concludes (c : Config σ) (k : Composite) : Prop where
  control : c.control = .done
  rest : k.rest = []
  stack : ∃ below, c.stack = .composite k :: below

theorem Config.Concludes.not_isFinal {c : Config σ} {k : Composite} (h : c.Concludes k) :
    c.isFinal = false := by
  obtain ⟨below, hstack⟩ := h.stack
  simp [isFinal, hstack]

theorem Registry.Awaits.waitingOn {r : Registry} (h : r.Awaits t i)
    (hk : i.kind = .race ∨ i.kind = .all) : i.pending.waitingOn = i.dependencies := by
  have hs := h.shape
  rcases hk with hk | hk
  · rw [hk] at hs
    exact Pending.waitingOn_of_slots_eq hs
  · rw [hk] at hs
    exact hs.symm

/-- From step `k` to step `n` the task is blocked and has no answer. -/
def Config.BlockedFrom (w : World σ) (o : RunOptions) (c : Config σ) (k n t : Nat) : Prop :=
  ∀ j, k ≤ j → j ≤ n → ∃ u i, (run w o j c).machine.get? t = some u ∧
    u.interruption = some i ∧ i.answer = none

/-- The interruption of a race or gather waits for every member that is not over. -/
structure Registry.Covers (r : Registry) (members : List Nat) (i : Interruption) : Prop where
  kind : i.kind = .race ∨ i.kind = .all
  waits : ∀ m ∈ members, m ∈ i.dependencies ∨ r.isDone m = true

theorem Registry.Moves.isDone {p : Footprint} {r r' : Registry} (h : r.Moves p r') {m : Nat}
    (hm : r.isDone m = true) : r'.isDone m = true := by
  obtain ⟨u, hu, hd⟩ := Registry.isDone_iff.mp hm
  obtain ⟨u', hu', ho, _⟩ := h.kept hu
  exact Registry.isDone_iff.mpr ⟨u', hu', ho.done hd⟩

theorem Registry.Covers.kind_ne_children {r : Registry} {members : List Nat}
    (h : r.Covers members i) :
    i.kind ≠ .children := by
  rcases h.kind with hk | hk <;> rw [hk] <;> decide

theorem Registry.Covers.mono {r r' : Registry} {members : List Nat} (h : r.Covers members i)
    (hd : ∀ m, r.isDone m = true → r'.isDone m = true) : r'.Covers members i :=
  ⟨h.kind, fun m hm => (h.waits m hm).imp_right (hd m)⟩

theorem Registry.Covers.modify {r : Registry} {members : List Nat}
    (h : r.Covers members i) (t : Nat)
    (f : Task → Task) (hf : ∀ u : Task, (f u).done = u.done) : (r.modify t f).Covers members i :=
  h.mono fun m hm => (r.isDone_modify t m f hf).trans hm

/-- A gather that has heard of some members still waits for those that are not over. -/
theorem Registry.Covers.settled {r r' : Registry} {members ids : List Nat} {i' : Interruption}
    (h : r.Covers members i) (hs : r.Settled ids t i false i' r') : r'.Covers members i' := by
  cases hs with
  | left kind _ _ dropped =>
    refine ⟨kind ▸ h.kind, fun m hm => ?_⟩
    rcases h.waits m hm with hdep | hdone
    · by_cases hin : m ∈ i'.dependencies
      · exact Or.inl hin
      · exact Or.inr (dropped m hdep hin)
    · exact Or.inr hdone

namespace Config

/-- A parent that runs, has failed or has been let go hears of nothing, and neither does anybody of
the failure of a task that has been let go. -/
theorem propagate_deaf (o : RunOptions) {m : Machine σ} {stack : List Frame} {v : Task} {p : Nat}
    (e : Exn) (hd : m.get? d = some v) (hp : v.parent = some p) (hu : m.get? p = some u)
    (hdeaf : v.abandoned = true ∨ u.running = true ∨ u.error.isSome = true ∨ u.abandoned = true) :
    propagate o m stack d e = halt m stack := by
  unfold propagate
  simp only [hd, hp, hu]
  rcases hdeaf with h | h | h | h <;> simp [h]

theorem run_abort (w : World σ) (o : RunOptions) {c : Config σ} {f : Failure}
    (h : c.control = .abort f) (n : Nat) : (run w o n c).control = .abort f := by
  induction n with
  | zero => exact h
  | succ n ih =>
    rw [run_succ]
    split
    · exact ih
    · generalize run w o n c = c' at ih ⊢
      obtain ⟨m, stack, control⟩ := c'
      obtain rfl : control = .abort f := ih
      show (unwind m f stack).control = _
      unfold unwind
      split <;> rfl

/-- A blocked task is worked on in its turn of a round, or because a child has failed. -/
theorem works_blocked {c : Config σ} (hc : c.Sound begun) (habort : ∀ f, c.control ≠ .abort f)
    (hu : c.machine.get? t = some u) (hi : u.interruption = some i) (hn : i.answer = none)
    (hw : c.footprint.works t) :
    (∃ ids rest root, c.control = .done ∧ c.stack = [.round ids (t :: rest), .loop root]) ∨
      ∃ d e v, c.control = .propagate d e ∧ c.machine.get? d = some v ∧ v.parent = some t := by
  have hsome : u.interruption ≠ none := by
    rw [hi]
    exact Option.some_ne_none i
  obtain ⟨m, stack, control⟩ := c
  have hget : m.registry.get? t = some u := hu
  have hsubject : ∀ {v}, m.registry.get? t = some v → v.interruption ≠ none := by
    intro v hv
    rw [hget, Option.some.injEq] at hv
    exact hv ▸ hsome
  have hframe : ∀ {f below}, Core begun m.registry [] (f :: below) none → f.runner? = some t →
      False := by
    intro f below core hf
    have hrun := (core.running_iff hget).mpr (List.mem_filterMap.mpr ⟨f, List.mem_cons_self .., hf⟩)
    exact hsome ((core.stands hget).free hrun).interruption
  cases hc with
  | aborted f _ => exact (habort f rfl).elim
  | looking _ _ => exact hw.elim
  | settled _ _ => exact hw.elim
  | interpreting _ _ _ _ => exact hw.elim
  | bubbling _ _ _ => exact hw.elim
  | driving core nested task poised =>
    obtain rfl : t = _ := hw
    exact (hsubject task poised.interruption).elim
  | starting core nested task fresh first =>
    obtain rfl : t = _ := hw
    exact (hsubject task fresh.interruption).elim
  | completing v core nested task free stopped =>
    obtain rfl : t = _ := hw
    exact (hsubject task free.interruption).elim
  | failing e core nested task free stopped =>
    obtain rfl : t = _ := hw
    exact (hsubject task free.interruption).elim
  | selected core nested task ready =>
    obtain rfl : t = _ := hw
    rcases ready with ⟨fresh, _⟩ | ⟨j, a, h⟩
    · exact (hsubject task fresh.interruption).elim
    · rw [hget, Option.some.injEq] at task
      subst task
      have hj := h.interruption
      rw [hi, Option.some.injEq] at hj
      subst hj
      exact (Option.some_ne_none a (h.answer.symm.trans hn)).elim
  | raised e core nested =>
    obtain ⟨f, below, rfl, _⟩ := nested.inv_some
    exact (hframe core hw).elim
  | answered core nested stands =>
    obtain ⟨f, below, rfl, _⟩ := nested.inv_some
    exact (hframe core hw).elim
  | propagating e core nested task parent =>
    obtain ⟨v, hv, hp⟩ := hw
    exact Or.inr ⟨_, e, v, rfl, hv, hp⟩
  | resting core nested =>
    cases nested with
    | batch _ _ => exact hw.elim
    | forked _ _ => exact hw.elim
    | composite _ _ => exact hw.elim
    | round ids rest root =>
      cases rest with
      | nil => exact hw.elim
      | cons x rest =>
        obtain rfl : t = x := hw
        exact Or.inl ⟨ids, rest, root, rfl, rfl⟩

/-- The turn of a blocked owner in a round: what it still waits for covers the members. -/
theorem covers_turn (w : World σ) (o : RunOptions) {m : Machine σ}
    {ids rest : List Nat} {root : Nat}
    {members : List Nat}
    (hc : Rehearsal.Sound begun m.registry [.round ids (t :: rest), .loop root] .done)
    (hu : m.get? t = some u) (hi : u.interruption = some i) (hcov : m.registry.Covers members i)
    {u' : Task} {i' : Interruption}
    (hu' : (step w o ⟨m, [.round ids (t :: rest), .loop root], .done⟩).machine.get? t = some u')
    (hi' : u'.interruption = some i') (hn' : i'.answer = none) :
    (step w o ⟨m, [.round ids (t :: rest), .loop root], .done⟩).machine.registry.Covers members
      i' := by
  cases hc with
  | resting core nested =>
    have hwait := core.waiting (Option.some_ne_none t).symm hu hi hcov.kind_ne_children
    obtain ⟨ok, j, r', he, _, hs⟩ := continueRound_waiting core hu hwait
    have hrun : step w o ⟨m, [.round ids (t :: rest), .loop root], .done⟩ =
        ⟨{ m with registry := r'.modify t (·.awaiting j) }, [.round ids rest, .loop root],
          if ok then .runTask t else .done⟩ := he
    rw [hrun] at hu' ⊢
    have hturn := Registry.get?_modify_of_eq_some (·.removeChildren ids)
      (show m.registry.get? t = some u from hu)
    have hj : ∀ {x}, r'.get? t = some x → j = i' := by
      intro x hx
      have hx' := Registry.get?_modify_of_eq_some (·.awaiting j) hx
      rw [show (r'.modify t (·.awaiting j)).get? t = some u' from hu', Option.some.injEq] at hx'
      rw [hx', Task.awaiting, Option.some.injEq] at hi'
      exact hi'
    cases hs with
    | answered kind answer flagged =>
      obtain ⟨c, l, hx, _⟩ := flagged.eq_some hturn
      obtain rfl := hj hx
      exact (Option.some_ne_none _ (answer.symm.trans hn')).elim
    | left kind awaits still dropped =>
      obtain rfl := hj hturn
      have hcov' := (hcov.modify t (·.removeChildren ids) fun _ => rfl).settled
        (.left kind awaits still dropped)
      exact hcov'.modify t (·.awaiting j) fun _ => rfl

/-- A parent hears nothing of the failure of its child, or no longer waits. -/
theorem propagate_parent (o : RunOptions) {m : Machine σ} {stack : List Frame} {v : Task} {e : Exn}
    (hc : Rehearsal.Sound begun m.registry stack (.propagate d e)) (hv : m.get? d = some v)
    (hp : v.parent = some t) (hu : m.get? t = some u) :
    propagate o m stack d e = halt m stack ∨
      ∀ u', (propagate o m stack d e).machine.registry.get? t = some u' →
      u'.interruption = none := by
  by_cases hdeaf : v.abandoned = true ∨ u.running = true ∨
    u.error.isSome = true ∨ u.abandoned = true
  · exact Or.inl (propagate_deaf o e hv hp hu hdeaf)
  · simp only [not_or, Bool.not_eq_true, Option.isSome_eq_false_iff,
      Option.isNone_iff_eq_none] at hdeaf
    obtain ⟨ha, hr, herr, hab⟩ := hdeaf
    refine Or.inr fun u' hu' => ?_
    have hs := sound_propagate o hc
    rw [propagate_eq o e hv hp ha hu hr herr hab] at hs hu'
    split at hs
    · rename_i hco
      rw [if_pos hco] at hu'
      cases hs with
      | failing _ _ _ task free _ =>
        rw [hu', Option.some.injEq] at task
        exact task ▸ free.interruption
    · rename_i hco
      rw [if_neg hco] at hu'
      cases hs with
      | driving _ _ task poised =>
        rw [hu', Option.some.injEq] at task
        exact task ▸ poised.interruption

/-- While the owner of a composite stays blocked, what it waits for covers the members. -/
theorem covers_step (w : World σ) (o : RunOptions) {c : Config σ} {members : List Nat}
    (hc : c.Sound begun) (habort : ∀ f, c.control ≠ .abort f) (hu : c.machine.get? t = some u)
    (hi : u.interruption = some i) (hn : i.answer = none)
    (hcov : c.machine.registry.Covers members i) {u' : Task} {i' : Interruption}
    (hu' : (c.step w o).machine.get? t = some u') (hi' : u'.interruption = some i')
    (hn' : i'.answer = none) : (c.step w o).machine.registry.Covers members i' := by
  have hmoves := moves_step w o c
  have hsame : u'.interruption = u.interruption →
      (c.step w o).machine.registry.Covers members i' := by
    intro he
    rw [hi, hi', Option.some.injEq] at he
    exact he ▸ hcov.mono fun m => hmoves.isDone
  by_cases hw : c.footprint.works t
  case neg =>
    obtain ⟨u'', hu'', _, hs⟩ := hmoves.kept (show c.machine.registry.get? t = some u from hu)
    rw [show (c.step w o).machine.registry.get? t = some u' from hu', Option.some.injEq] at hu''
    exact hsame (hu'' ▸ (hs hw).interruption)
  obtain ⟨m, stack, control⟩ := c
  rcases works_blocked hc habort hu hi hn hw with
    ⟨ids, rest, root, hcontrol, hstack⟩ | ⟨d, e, v, hcontrol, hv, hp⟩
  · obtain rfl : control = .done := hcontrol
    obtain rfl : stack = [.round ids (t :: rest), .loop root] := hstack
    exact covers_turn w o hc hu hi hcov hu' hi' hn'
  · obtain rfl : control = .propagate d e := hcontrol
    rcases propagate_parent o hc hv hp hu with hhalt | hnone
    · have hstay : (step w o ⟨m, stack, .propagate d e⟩).machine = m := congrArg (·.machine) hhalt
      rw [hstay, show m.get? t = some u from hu, Option.some.injEq] at hu'
      exact hsame (by rw [hu'])
    · rw [hnone u' hu'] at hi'
      cases hi'

/-- A composite that blocks its owner changes nothing, and waits for its unfinished members. -/
theorem conclude_block {m : Machine σ} {k : Composite} {b : Interruption}
    (h : (m.concludeComposite k).control = .answer (.block b)) :
    m.concludeComposite k = .answer m (.block b) ∧ (b.kind = .race ∨ b.kind = .all) ∧
      b.answer = none ∧ b.dependencies = (m.registry.settleFinished k.shape).waitingOn := by
  rw [Machine.concludeComposite_eq] at h ⊢
  cases hf : m.firstError? (k.made.map (·.2)) with
  | some e =>
    simp only [hf, Outcome.raise, Outcome.failure, Failure.control] at h
    split at h <;> cases h
  | none =>
    simp only [hf] at h ⊢
    by_cases hdecided : (k.isRace && decide ((m.registry.settleFinished k.shape).waitingOn.length <
        (k.made.map (·.2)).length)) = true
    · rw [if_pos hdecided] at h
      cases h
    rw [if_neg hdecided] at h ⊢
    by_cases hnone : (m.registry.settleFinished k.shape).waitingOn.isEmpty = true
    · rw [if_pos hnone] at h
      cases h
    rw [if_neg hnone] at h ⊢
    cases h
    refine ⟨rfl, ?_, rfl, rfl⟩
    cases k.isRace
    · exact Or.inr rfl
    · exact Or.inl rfl

/-- Two steps after a composite that blocks its owner was concluded, what the owner waits for covers
the members. -/
theorem covers_concluded (w : World σ) (o : RunOptions) {c : Config σ} {k : Composite}
    {b : Interruption} (hc : c.Sound begun) (hk : c.Concludes k)
    (hb : (c.step w o).control = .answer (.block b)) :
    ∃ u, ((c.step w o).step w o).machine.get? k.task = some u ∧ u.interruption = some b ∧
      b.answer = none ∧ ((c.step w o).step w o).machine.registry.Covers k.members b := by
  obtain ⟨m, stack, control⟩ := c
  obtain ⟨hcontrol, hrest, below, hstack⟩ := hk
  obtain rfl : control = .done := hcontrol
  obtain rfl : stack = .composite k :: below := hstack
  have hone : step w o ⟨m, .composite k :: below, .done⟩ =
      ofOutcome below (m.concludeComposite k) := by
    show ofOutcome below (m.continueComposite k) = _
    unfold Machine.continueComposite
    rw [hrest]
  rw [hone] at hb ⊢
  obtain ⟨heq, hkind, hans, hdeps⟩ := conclude_block hb
  rw [heq]
  cases hc with
  | resting core nested =>
    cases nested with
    | composite _ nested =>
      obtain ⟨u, hu⟩ := core.exists_of_mem_runners nested.runner_mem
      have hdeliver : (step w o (ofOutcome below (.answer m (.block b)))).machine =
          (m.modify k.task fun task => { task with running := false }).suspend o k.task b := by
        obtain ⟨f, below', rfl, rfl | rfl, _⟩ := nested.inv_some <;> rfl
      have hreg : (step w o (ofOutcome below (.answer m (.block b)))).machine.registry =
          (m.registry.modify k.task fun task => { task with running := false }).modify k.task
            (·.block b) := by
        rw [hdeliver, Machine.registry_suspend]
        rfl
      have hu' := Registry.get?_modify_of_eq_some (·.block b)
        (Registry.get?_modify_of_eq_some (fun task => { task with running := false }) hu)
      refine ⟨{ u with running := false }.block b, ?_, rfl, hans, hkind, fun x hx => ?_⟩
      · show (step w o _).machine.registry.get? k.task = _
        rw [hreg]
        exact hu'
      · have hsame : (step w o (ofOutcome below (.answer m (.block b)))).machine.registry.isDone x =
            m.registry.isDone x := by
          rw [hreg, Registry.isDone_modify _ _ _ (·.block b) fun _ => rfl,
            Registry.isDone_modify _ _ _ (fun task => { task with running := false }) fun _ => rfl]
        rw [hsame, hdeps]
        cases hd : m.registry.isDone x with
        | true => exact Or.inr rfl
        | false =>
          refine Or.inl (Pending.mem_waitingOn_settleFinished.mpr ⟨?_, hd⟩)
          rw [k.waitingOn_shape]
          exact hx

/-- As long as the owner of a composite that blocked it stays blocked, what it waits for covers the
members. -/
theorem covers_run (w : World σ) (o : RunOptions) {c : Config σ} {k : Composite} {b : Interruption}
    (hc : c.Sound begun) (hk : c.Concludes k) (hb : (run w o 1 c).control = .answer (.block b))
    {n : Nat} (hn : 2 ≤ n) (hblocked : BlockedFrom w o c 2 n k.task)
    (habort : ∀ f, (run w o n c).control ≠ .abort f) :
    ∃ u i, (run w o n c).machine.get? k.task = some u ∧ u.interruption = some i ∧ i.answer = none ∧
      (run w o n c).machine.registry.Covers k.members i := by
  have hone : run w o 1 c = c.step w o := run_one w o hk.not_isFinal 0
  -- induction on the steps since the owner was blocked
  obtain ⟨n, rfl⟩ := Nat.exists_eq_add_of_le hn
  induction n with
  | zero =>
    have htwo : run w o 2 c = (c.step w o).step w o := by
      rw [run_succ, hone, if_neg]
      rw [hone] at hb
      simp [isFinal, hb]
    rw [hone] at hb
    rw [Nat.add_zero, htwo]
    obtain ⟨u, hu, hi, ha, hcov⟩ := covers_concluded w o hc hk hb
    exact ⟨u, b, hu, hi, ha, hcov⟩
  | succ n ih =>
    have hlive : ∀ f, (run w o (2 + n) c).control ≠ .abort f := by
      intro f hf
      refine habort f ?_
      rw [← Nat.add_assoc, run_add]
      exact run_abort w o hf 1
    obtain ⟨u, i, hu, hi, ha, hcov⟩ := ih (Nat.le_add_right 2 n)
      (fun j hj hjn => hblocked j hj (Nat.le_succ_of_le hjn)) hlive
    obtain ⟨u', i', hu', hi', ha'⟩ := hblocked (2 + (n + 1)) hn (Nat.le_refl _)
    refine ⟨u', i', hu', hi', ha', ?_⟩
    obtain ⟨begun', _, hs⟩ := sound_run w o hc (2 + n)
    rw [← Nat.add_assoc, run_succ] at hu' ⊢
    split at hu'
    · rename_i hf
      rw [if_pos hf]
      rw [hu, Option.some.injEq] at hu'
      subst hu'
      rw [hi, Option.some.injEq] at hi'
      exact hi' ▸ hcov
    · rename_i hf
      rw [if_neg hf]
      exact covers_step w o hs hlive hu hi ha hcov hu' hi' ha'

end Config

end Rehearsal
