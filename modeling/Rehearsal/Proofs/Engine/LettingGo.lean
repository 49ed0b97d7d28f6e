import Mathlib.Tactic.IntervalCases
import Rehearsal.Proofs.Engine.Covering

/-!
# What a failed composite leaves behind

When a member of a race or gather fails after the owner has blocked, every other member that is not
over is cancelled and let go, and no failure of it reaches the owner any more. When a member has
failed before, while the composite was being interpreted, nobody is let go: the owner is thrown into
all the same, and a member that fails later can be thrown into it wherever it then is.
-/
namespace Rehearsal

variable {σ : Type} {begun : Nat → Prop} {t d : Nat} {u : Task} {i : Interruption}

/-- Every member but `d` that is not over has been cancelled and let go. -/
def Registry.LetGoBut (r : Registry) (members : List Nat) (d : Nat) : Prop :=
  ∀ m ∈ members, m ≠ d → ∀ u, r.get? m = some u → u.done = false →
    u.cancelled = true ∧ u.abandoned = true

namespace Config

/-- Delivering the failure of a member lets go of the other members that are not over. -/
theorem propagate_letGo (o : RunOptions) {m : Machine σ} {stack : List Frame}
    {v x : Task} {p y : Nat}
    (e : Exn) (hd : m.get? d = some v) (hp : v.parent = some p) (ha : v.abandoned = false)
    (hu : m.get? p = some u) (hb : u.BlockedBehind i d) (hr : u.running = false)
    (herr : u.error = none) (hab : u.abandoned = false) (hk : i.kind = .race ∨ i.kind = .all)
    (hy : y ∈ i.pending.waitingOn) (hyd : y ≠ d) (hyp : y ≠ p) (hx : m.get? y = some x)
    (hxp : x.parent = some p) (hopen : x.done = false) :
    ∃ x', (propagate o m stack d e).machine.registry.get? y = some x' ∧ x'.cancelled = true ∧
      x'.abandoned = true := by
  have hkind : ¬ (i.kind = .join ∨ i.kind = .children) := by
    rcases hk with hk | hk <;> rw [hk] <;> simp
  have hreg : (abandon m p d).2.registry =
      (m.registry.modify p fun u => { u with interruption := none }).letGoOthers p d
        i.pending.waitingOn := by
    rw [abandon_registry hu hb.interruption, if_neg hkind]
  obtain ⟨x', hx', hc, hl⟩ := Registry.letGoOthers_gone
    (r := m.registry.modify p fun u => { u with interruption := none }) hy hyd
    (by rw [Registry.get?_modify_ne hyp]; exact hx) hxp hopen
  rw [← hreg] at hx'
  rw [propagate_eq o e hd hp ha hu hr herr hab]
  split
  · exact ⟨x', hx', hc, hl⟩
  · dsimp only
    split
    · exact ⟨x', hx', hc, hl⟩
    · obtain ⟨c, l, he, _⟩ := (Registry.cancelAll_flagged (abandon m p d).2.registry u.children
        fun _ => False).eq_some hx'
      exact ⟨_, he, by simp [Task.flag, hc], by simp [Task.flag, hl]⟩

/-- A member fails while the owner is blocked: the owner is thrown into, or fails itself where it
has no coroutine, and the other members are let go. -/
theorem letGo_of_fail (w : World σ) (o : RunOptions) {c : Config σ} {members : List Nat} {e : Exn}
    (hc : c.Sound begun) (hfail : c.control = .fail d e) (hu : c.machine.get? t = some u)
    (hi : u.interruption = some i) (hn : i.answer = none)
    (hcov : c.machine.registry.Covers members i) (hd : d ∈ members) (hab : u.abandoned = false) :
    (run w o 2 c).control = (if u.coroutine.isSome then .drive t (.throw e) else .fail t e) ∧
      (run w o 2 c).machine.registry.LetGoBut members d := by
  obtain ⟨m, stack, control⟩ := c
  obtain rfl : control = .fail d e := hfail
  have hopen : m.registry.isDone d = false := by
    cases hc with
    | failing _ _ _ task free _ => exact (Registry.isDone_of_eq_some task).trans free.done
  have hb : u.BlockedBehind i d := by
    refine ⟨hi, hn, Or.inr hcov.kind, (hcov.waits d hd).resolve_right fun hdone => ?_⟩
    exact Bool.false_ne_true (hopen.symm.trans hdone)
  obtain ⟨m', u', v, hstep, hu', hb', hco', hab', hr, herr, hv, hvp, hva⟩ := fail_step w o hc hu hb
  have hdone : ∀ {x}, m.registry.isDone x = true → m'.registry.isDone x = true := by
    intro x hx
    have hmoves := moves_step w o ⟨m, stack, .fail d e⟩
    rw [hstep] at hmoves
    exact hmoves.isDone hx
  have hdone' : ∀ {x}, m'.registry.isDone x = true →
      (propagate o m' stack d e).machine.registry.isDone x = true :=
    fun hx => (moves_step w o ⟨m', stack, .propagate d e⟩).isDone hx
  have hsound := sound_step w o hc
  rw [hstep] at hsound
  have htwo : run w o 2 ⟨m, stack, .fail d e⟩ = propagate o m' stack d e := by
    rw [run_one w o (by simp [isFinal]), hstep, run_one w o (by simp [isFinal])]
    rfl
  rw [htwo]
  constructor
  · rw [propagate_eq o e hv hvp hva hu' hr herr (hab'.trans hab), hco']
    cases u.coroutine <;> rfl
  · intro x hx hxd ux hux huxd
    have hlive : m'.registry.isDone x = false := by
      cases hx' : m'.registry.isDone x with
      | false => rfl
      | true =>
        have hover := hdone' hx'
        rw [Registry.isDone_of_eq_some hux, huxd] at hover
        cases hover
    have hdep : x ∈ i.dependencies := by
      refine (hcov.waits x hx).resolve_right fun hx' => ?_
      exact Bool.false_ne_true (hlive.symm.trans (hdone hx'))
    cases hsound with
    | propagating _ core nested task parent =>
      have hw := core.waiting (Option.some_ne_none t).symm hu' hb'.interruption hb'.kind_ne_children
      have hid := core.forest.id_eq (show m'.registry.get? t = some u' from hu')
      obtain ⟨tx, htx, hxp, _⟩ := hid ▸ hw.awaits.owned hb'.kind_ne_join x hdep
      have hxt : x ≠ t := (Nat.ne_of_lt (core.forest.parent_lt htx hxp)).symm
      have hxopen : tx.done = false := (Registry.isDone_of_eq_some htx).symm.trans hlive
      obtain ⟨x', hx', hc, hl⟩ := propagate_letGo o e hv hvp hva hu' hb' hr herr
        (hab'.trans hab) hcov.kind (hw.awaits.waitingOn hcov.kind ▸ hdep) hxd hxt htx hxp hxopen
      rw [hux, Option.some.injEq] at hx'
      exact hx' ▸ ⟨hc, hl⟩

/-- The failure of a task that has been let go reaches nobody. -/
theorem unheard_of_abandoned (w : World σ) (o : RunOptions) {c : Config σ} {e : Exn}
    (hc : c.Sound begun) (hfail : c.control = .fail d e) (hu : c.machine.get? d = some u) {p : Nat}
    (hp : u.parent = some p) (ha : u.abandoned = true) :
    run w o 2 c = halt (run w o 1 c).machine (run w o 1 c).stack := by
  obtain ⟨m, stack, control⟩ := c
  obtain rfl : control = .fail d e := hfail
  obtain ⟨m', hstep, hev⟩ := step_fail w o hc
  obtain ⟨u', hu', hk⟩ := hev.kept (show m.registry.get? d = some u from hu)
  have hup : ∃ up, m'.get? p = some up := by
    obtain ⟨up, hup⟩ := (Rehearsal.Sound.forest hc).exists_parent hu hp
    obtain ⟨up', hup', _⟩ := hev.kept hup
    exact ⟨up', hup'⟩
  obtain ⟨up, hup⟩ := hup
  have hone : run w o 1 ⟨m, stack, .fail d e⟩ = ⟨m', stack, .propagate d e⟩ := by
    rw [run_one w o (by simp [isFinal]), hstep]
    rfl
  rw [run_succ, hone, if_neg (by simp [isFinal])]
  exact propagate_deaf o e hu' (hk.parent.trans hp) hup (Or.inl (hk.abandoned ha))

/-- The members of a composite belong to the task that yielded it. -/
theorem owned_of_concludes {c : Config σ} {k : Composite} (hc : c.Sound begun) (hk : c.Concludes k)
    {x : Nat} (hx : x ∈ k.members) : c.machine.registry.Owned k.task x := by
  obtain ⟨m, stack, control⟩ := c
  obtain ⟨hcontrol, _, below, hstack⟩ := hk
  obtain rfl : control = .done := hcontrol
  obtain rfl : stack = .composite k :: below := hstack
  obtain ⟨entry, hentry, rfl⟩ := List.mem_map.mp hx
  cases hc with
  | resting core nested => exact core.frames (.composite k) (List.mem_cons_self ..) entry hentry

/-- A member has failed before its composite is concluded: the failure is raised at once, and no
member has been let go. -/
theorem conclude_failed (w : World σ) (o : RunOptions) {c : Config σ} {k : Composite} {e : Exn}
    (hc : c.Sound begun) (hk : c.Concludes k) (he : c.machine.firstError? k.members = some e) :
    (run w o 1 c).control = (Failure.exn e).control ∧ (run w o 1 c).machine = c.machine ∧
      ∀ d, (c.machine.registry.LetGoBut k.members d ↔
        ∀ m ∈ k.members, m ≠ d → c.machine.registry.isDone m = true) := by
  have hone : run w o 1 c = c.step w o := run_one w o hk.not_isFinal 0
  have owned := fun x hx => owned_of_concludes (x := x) hc hk hx
  obtain ⟨m, stack, control⟩ := c
  obtain ⟨hcontrol, hrest, below, hstack⟩ := hk
  obtain rfl : control = .done := hcontrol
  obtain rfl : stack = .composite k :: below := hstack
  have hstep : step w o ⟨m, .composite k :: below, .done⟩ = ofOutcome below (.raise m e) := by
    show ofOutcome below (m.continueComposite k) = _
    unfold Machine.continueComposite
    rw [hrest]
    show ofOutcome below (m.concludeComposite k) = _
    rw [Machine.concludeComposite_eq]
    have he' : m.firstError? (k.made.map (·.2)) = some e := he
    simp only [he']
  rw [hone, hstep]
  refine ⟨rfl, rfl, fun d => ⟨fun h x hx hxd => ?_, fun h x hx hxd u hu hopen => ?_⟩⟩
  · obtain ⟨u, hu, _, hheld⟩ := owned x hx
    cases hd : u.done with
    | true => exact (Registry.isDone_of_eq_some hu).trans hd
    | false => exact (Bool.false_ne_true (hheld.symm.trans (h x hx hxd u hu hd).2)).elim
  · have hdone := h x hx hxd
    rw [Registry.isDone_of_eq_some hu, hopen] at hdone
    cases hdone

/-- Once the others have been let go, whichever of them fails later is not heard. -/
theorem unheard_of_letGoBut (w : World σ) (o : RunOptions) {c : Config σ} {members : List Nat}
    (hc : c.Sound begun) (h : c.machine.registry.LetGoBut members d) {x p : Nat} (hx : x ∈ members)
    (hxd : x ≠ d) (hu : c.machine.registry.get? x = some u)
    (hp : u.parent = some p) (n : Nat) {e : Exn}
    (hfail : (run w o n c).control = .fail x e) :
    run w o (n + 2) c = halt (run w o (n + 1) c).machine (run w o (n + 1) c).stack := by
  obtain ⟨begun', _, hs⟩ := sound_run w o hc n
  obtain ⟨u', hu', ho⟩ := onward_run w o hu n
  rw [run_add, run_add w o n 1]
  refine unheard_of_abandoned w o hs hfail hu' (ho.parent.trans hp) (ho.abandoned ?_)
  refine (h x hx hxd u hu ?_).2
  cases hd : u.done with
  | false => rfl
  | true =>
    generalize run w o n c = c' at hs hu' hfail
    obtain ⟨m, stack, control⟩ := c'
    obtain rfl : control = .fail x e := hfail
    cases hs with
    | failing _ _ _ task free _ =>
      rw [show m.registry.get? x = some u' from hu', Option.some.injEq] at task
      exact (Bool.false_ne_true (free.done.symm.trans (task ▸ ho.done hd))).elim

end Config

/-- **When a failed composite lets go of its other members.** Let `k` be about to be concluded.

If a member has failed already, the failure is raised in the next step with the registry as it is,
and the other members have been let go only if all of them are over.

If instead the composite blocks its owner, and a member fails while the owner, not let go of itself,
is still blocked, then two steps later the failure is about to be thrown into the owner's coroutine
(where it has none, it fails in turn), every other member that is not over has been cancelled and
let go, and a later failure of any of these is propagated to nobody. -/
theorem failed_composite (w : World σ) (o : RunOptions) (outer : σ) (name : String) (g n : Nat)
    {k : Composite} (hk : (Config.run w o n (Config.launched outer name g)).Concludes k) :
    (∀ e, (Config.run w o n (Config.launched outer name g)).machine.firstError? k.members = some e →
      (Config.run w o (n + 1) (Config.launched outer name g)).control = (Failure.exn e).control ∧
      ∀ d, ((Config.run w o (n + 1) (Config.launched outer name g)).machine.registry.LetGoBut
          k.members d ↔
        ∀ x ∈ k.members, x ≠ d →
          (Config.run w o (n + 1) (Config.launched outer name g)).machine.registry.isDone x =
            true)) ∧
    ∀ b j d e u,
      (Config.run w o (n + 1) (Config.launched outer name g)).control = .answer (.block b) →
      2 ≤ j →
      Config.BlockedFrom w o (Config.run w o n (Config.launched outer name g)) 2 j k.task →
      (Config.run w o (n + j) (Config.launched outer name g)).control = .fail d e →
      d ∈ k.members →
      (Config.run w o (n + j) (Config.launched outer name g)).machine.get? k.task = some u →
      u.abandoned = false →
      (Config.run w o (n + j + 2) (Config.launched outer name g)).control =
        (if u.coroutine.isSome then .drive k.task (.throw e) else .fail k.task e) ∧
      (Config.run w o (n + j + 2) (Config.launched outer name g)).machine.registry.LetGoBut
        k.members d ∧
      ∀ x ∈ k.members, x ≠ d → ∀ l e',
        (Config.run w o (n + j + 2 + l) (Config.launched outer name g)).control = .fail x e' →
        Config.run w o (n + j + 2 + (l + 2)) (Config.launched outer name g) =
          .halt (Config.run w o (n + j + 2 + (l + 1)) (Config.launched outer name g)).machine
            (Config.run w o (n + j + 2 + (l + 1)) (Config.launched outer name g)).stack := by
  obtain ⟨begun, hc⟩ := Config.sound_reached w o outer name g n
  simp only [Config.run_add]
  generalize Config.run w o n (Config.launched outer name g) = c at hk hc ⊢
  refine ⟨fun e he => ?_, fun b j d e u hb hj hblocked hfail hd hu hab => ?_⟩
  · obtain ⟨hcontrol, hm, hiff⟩ := Config.conclude_failed w o hc hk he
    rw [hm]
    exact ⟨hcontrol, hiff⟩
  · have habort : ∀ f, (Config.run w o j c).control ≠ .abort f := by
      intro f hf
      rw [hfail] at hf
      cases hf
    obtain ⟨u', i, hu', hi, ha, hcov⟩ := Config.covers_run w o hc hk hb hj hblocked habort
    rw [hu, Option.some.injEq] at hu'
    subst hu'
    obtain ⟨begun', _, hs⟩ := Config.sound_run w o hc j
    obtain ⟨begun'', _, hs'⟩ := Config.sound_run w o hs 2
    obtain ⟨hcontrol, hlet⟩ := Config.letGo_of_fail w o hs hfail hu hi ha hcov hd hab
    refine ⟨hcontrol, hlet, fun x hx hxd l e' hfail' => ?_⟩
    obtain ⟨v, hv, hp, _⟩ := Config.owned_of_concludes hc hk hx
    obtain ⟨v', hv', ho'⟩ := Config.onward_run w o hv j
    obtain ⟨v'', hv'', ho''⟩ := Config.onward_run w o hv' 2
    have hp' : v''.parent = some k.task := ho''.parent.trans (ho'.parent.trans hp)
    have hquiet := Config.unheard_of_letGoBut w o hs' hlet hx hxd hv'' hp' l hfail'
    simp only [Config.run_add] at hquiet
    exact hquiet

/-- The root gathers a call that fails later with a call that fails at once, and waits for a delay
after it has caught that. -/
def Playbook.brokenGather : Playbook where
  responses
    | 0 => [.yielded (.effect (.gather (.listed
        [.effect (.call .null [] []), .effect (.call .null [] [])]))),
        .yielded (.effect (.delay 3))]
    | _ => []
  plans :=
    [{ CallPlan.real with error := some ⟨.value, [], .scheduler 0⟩, wait := .tick 2 },
      { CallPlan.real with error := some ⟨.key, [], .scheduler 0⟩ }]

/-- The root gathers a call that fails later with a generator that fails later still. -/
def Playbook.failingGather : Playbook where
  responses
    | 0 => [.yielded (.effect (.gather (.listed [.effect (.call .null [] []), .generator 1]))),
        .yielded (.effect (.delay 3))]
    | 1 => [.yielded (.effect (.delay 2)), .raised ⟨.value, [], .scheduler 0⟩]
    | _ => []
  plans := [{ CallPlan.real with error := some ⟨.key, [], .scheduler 0⟩, wait := .tick 1 }]

theorem gather_lets_go_once_blocked :
    (∃ k e, (Playbook.brokenGather.played 9).Concludes k ∧
      (Playbook.brokenGather.played 9).machine.firstError? k.members = some e ∧
      (Playbook.brokenGather.played 10).control = .raised e) ∧
    ∃ k e, (Playbook.failingGather.played 10).Concludes k ∧ k.members = [1, 3] ∧
      (Playbook.failingGather.played 20).control = .fail 1 e ∧
      (Playbook.failingGather.played 22).control = .drive k.task (.throw e) ∧
      (Playbook.failingGather.played 22).machine.registry.LetGoBut k.members 1 ∧
      Playbook.failingGather.played 45 = .halt (Playbook.failingGather.played 44).machine
        (Playbook.failingGather.played 44).stack := by
  constructor
  · have hk : ∃ k, (Playbook.brokenGather.played 9).Concludes k ∧ k.members = [1, 3] :=
      ⟨_, ⟨rfl, rfl, _, rfl⟩, rfl⟩
    obtain ⟨k, hk, hmembers⟩ := hk
    have he : (Playbook.brokenGather.played 9).machine.firstError? k.members =
        some ⟨.key, [], .scheduler 0⟩ := by
      rw [hmembers]
      rfl
    obtain ⟨hraised, _⟩ :=
      (failed_composite Playbook.world .default Playbook.brokenGather "root" 0 9 hk).1 _ he
    exact ⟨k, _, hk, he, hraised⟩
  · have hk : ∃ k, (Playbook.failingGather.played 10).Concludes k ∧ k.members = [1, 3] ∧
        k.task = 0 := ⟨_, ⟨rfl, rfl, _, rfl⟩, rfl, rfl⟩
    obtain ⟨k, hk, hmembers, htask⟩ := hk
    have hblocked :
        Config.BlockedFrom Playbook.world .default (Playbook.failingGather.played 10) 2 10
        k.task := by
      intro j hj hj'
      rw [htask]
      interval_cases j <;> exact ⟨_, _, rfl, rfl, rfl⟩
    obtain ⟨hthrown, hgone, hquiet⟩ :=
      (failed_composite Playbook.world .default Playbook.failingGather "root" 0 10 hk).2 _ 10 1 _ _
        rfl (by decide) hblocked rfl (by simp [hmembers]) (by rw [htask]; rfl) rfl
    exact ⟨k, _, hk, hmembers, rfl, hthrown, hgone,
      hquiet 3 (by simp [hmembers]) (by decide) 21 _ rfl⟩

/-- A gather fails at once, and its other member is not let go of. When that fails, the exception is
thrown into the root, which by then waits for something else. -/
theorem sibling_failure_thrown :
    ∃ k e e' u v i, (Playbook.brokenGather.played 9).Concludes k ∧ k.task = 0 ∧
      k.members = [1, 3] ∧ (Playbook.brokenGather.played 7).control = .fail 3 e ∧
      (Playbook.brokenGather.played 10).resumption? 0 = some (.throw e) ∧
      (Playbook.brokenGather.played 11).machine.get? 1 = some u ∧ u.done = false ∧
      u.cancelled = false ∧ u.abandoned = false ∧
      (Playbook.brokenGather.played 27).control = .fail 1 e' ∧
      (Playbook.brokenGather.played 27).machine.get? 0 = some v ∧ v.BlockedBehind i 4 ∧
      i.dependencies = [4] ∧
      (Playbook.brokenGather.played 29).resumption? 0 = some (.throw e') ∧ e'.kind ≠ e.kind :=
  ⟨_, _, _, _, _, _, ⟨rfl, rfl, _, rfl⟩, rfl, rfl, rfl, rfl, rfl, rfl, rfl, rfl, rfl, rfl,
    ⟨rfl, rfl, Or.inl rfl, List.mem_cons_self ..⟩, rfl, rfl, by decide⟩

end Rehearsal
