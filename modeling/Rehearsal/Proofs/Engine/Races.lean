import Rehearsal.Proofs.Engine.Independence
import Rehearsal.Proofs.Engine.Racing

/-!
# Who wins a race, and what becomes of the others

The saga goes on as soon as the race is decided. Those that have lost are let go, but not stopped:
their calls are made when it is their turn, and the run ends when the last of them has been made.
-/
namespace Rehearsal

variable {σ : Type} {begun : Nat → Prop} {w : World σ} {o : RunOptions}

namespace Racer

@[simp] theorem length_lineUp (items : List (Value × Entrant)) :
    ∀ n, (lineUp items n).length = items.length := by
  induction items with
  | nil => exact fun _ => rfl
  | cons x items ih => exact fun n => congrArg (· + 1) (ih (n + x.2.span))

theorem lineUp_ne_nil {items : List (Value × Entrant)} (h : items ≠ []) (n : Nat) :
    lineUp items n ≠ [] :=
  fun hnil => h (List.length_eq_zero_iff.mp (length_lineUp items n ▸ congrArg List.length hnil))

/-- The first of those that come soonest. -/
theorem exists_first {field : List Racer} (h : field ≠ []) :
    ∃ k, field.find? (·.soonest field) = some k := by
  obtain ⟨q, hq, hsoonest⟩ := exists_soonest h
  exact Option.isSome_iff_exists.mp (List.find?_isSome.mpr ⟨q, hq, hsoonest⟩)

/-- Every task of the racer has come to its output. -/
def Ran (r : Registry) (q : Racer) : Prop := ∀ i ∈ q.tasks, ∃ t, r.get? i = some t ∧
    t.Came q.entrant.output

/-- There are two tasks for a racer at the most. -/
theorem length_tasks_le (field : List Racer) : (field.flatMap tasks).length ≤ 2 * field.length := by
  induction field with
  | nil => exact Nat.le_refl 0
  | cons q field ih =>
    rw [List.flatMap_cons, List.length_append, List.length_cons, tasks,
      List.length_range', Entrant.span]
    split <;> omega

namespace Field

variable {field : List Racer} {n : Nat}

theorem size_le (h : Field field n) : n ≤ 2 * field.length + 1 := by
  have hlength := congrArg List.length (show _ = _ from h)
  rw [List.length_cons, List.length_range] at hlength
  have htasks := length_tasks_le field
  omega

/-- The tasks of a racer come to its output, and the root to whatever the saga returns. -/
theorem exists_values (h : Field field n) (x : Value) :
    ∃ val : Nat → Value, val 0 = x ∧ ∀ q ∈ field, ∀ i ∈ q.tasks, val i = q.entrant.output := by
  refine ⟨fun i => if i =
    0 then x else ((field.find? fun q => i ∈ q.tasks).map (·.entrant.output)).getD x,
    if_pos rfl, fun q hq i hi => ?_⟩
  have hsome : (field.find? fun q => i ∈ q.tasks).isSome :=
    List.find?_isSome.mpr ⟨q, hq, decide_eq_true hi⟩
  obtain ⟨q', hfind⟩ := Option.isSome_iff_exists.mp hsome
  have hmem : i ∈ q'.tasks := by simpa using List.find?_some hfind
  have hsame := h.unique (List.mem_of_find?_eq_some hfind) hq hmem hi
  simp only [Nat.ne_of_gt (h.range hq hi).1, if_false, hfind, Option.map_some,
    Option.getD_some, hsame]

end Field

/-- Whether the racer has won or lost, its tasks come to its output. -/
theorem Stands.ripens {q : Racer} {made ended lost : Bool} {r : Registry}
    {val : Nat → Value} {n g i : Nat}
    {u : Task} (h : q.Stands made ended lost r) (hval : ∀ i ∈ q.tasks, val i = q.entrant.output)
    (hrange : ∀ i ∈ q.tasks, 0 < i ∧ i < n) (hi : i ∈ q.tasks) (hu : r.get? i = some u) :
    u.error = none ∧ u.Ripens val n g i := by
  have hvali := hval i hi
  rcases mem_tasks.mp hi with rfl | ⟨hlate, rfl⟩
  · obtain ⟨t, ht, holds, came, awaits⟩ := h.place
    obtain rfl := Option.some.inj (ht.symm.trans hu)
    refine ⟨holds.hale, ?_⟩
    cases ended with
    | true => exact .ended (came rfl).done ((came rfl).result.trans hvali.symm)
    | false =>
      have hcall : q.place + 1 ∈ q.tasks := mem_tasks.mpr (Or.inr ⟨h.late rfl, rfl⟩)
      refine .blocked (awaits rfl).interruption
        (.child rfl rfl (hrange _ hcall).2 ((hval _ hcall).trans hvali.symm) nofun) fun _ => ?_
      exact (awaits rfl).coroutine.trans (if_neg (Nat.ne_of_gt (hrange _ hi).1)).symm
  · obtain ⟨v, hv, _, hale, came, planned⟩ := h.call hlate
    obtain rfl := Option.some.inj (hu.symm.trans hv)
    refine ⟨hale, ?_⟩
    cases made with
    | true => exact .ended (came rfl).done ((came rfl).result.trans hvali.symm)
    | false =>
      have hentry : u.entry =
          some (.planned ⟨false, val (q.place + 1), none, q.entrant.wait⟩ q.entrant.call) := by
        rw [hvali]
        exact (planned rfl).entry
      exact .planned (planned rfl).done (planned rfl).interruption hentry (hvali ▸ q.entrant.plain)

end Racer

namespace Config

variable {c : Config σ} {g : Nat} {keyed : Bool} {field : List Racer} {prize : Value}

namespace Decided

theorem unfinished (h : c.Decided w g field prize) : c.isFinal = false := by
  obtain ⟨m, below, hg, rfl | rfl⟩ := h.about <;> cases hg <;> rfl

theorem resumption?_eq (h : c.Decided w g field prize) : c.resumption? 0 = some (.send prize) := by
  obtain ⟨m, below, _, rfl | rfl⟩ := h.about <;> rfl

/-- The saga is sent its prize, and returns. -/
theorem step_eq (h : c.Decided w g field prize) :
    ∃ m below x, c.step w o = ⟨m, below, .complete 0 x⟩ ∧ Grounded below ∧
      (∃ u, m.registry.get? 0 = some u ∧ u.error = none ∧ u.coroutine = some ⟨[], true⟩) ∧
      (∀ i ≠ 0, m.registry.get? i = c.machine.registry.get? i) ∧
      m.registry.size = c.machine.registry.size ∧
      m.registry.pending = c.machine.registry.pending ∧ m.steps = c.machine.steps := by
  obtain ⟨u, hu, goes⟩ := h.root
  have hreturns := h.returns
  obtain ⟨m, below, hg, hc⟩ := h.about
  obtain ⟨m₁, u₁, hsends, hu₁, hco₁, hale₁, houter₁, hget₁, hsize₁, hpending₁, hsteps₁⟩ :
      ∃ m₁ u₁, c.step w o = resume w m₁ below 0 (.send prize) ∧ m₁.registry.get? 0 = some u₁ ∧
        u₁.coroutine = some ⟨[g], true⟩ ∧ u₁.error = none ∧ m₁.outer = c.machine.outer ∧
        (∀ i ≠ 0, m₁.registry.get? i = c.machine.registry.get? i) ∧
        m₁.registry.size = c.machine.registry.size ∧
        m₁.registry.pending = c.machine.registry.pending ∧
        m₁.steps = c.machine.steps := by
    rcases hc with rfl | rfl
    · exact ⟨m, u, rfl, hu, goes.coroutine, goes.hale, rfl, fun _ _ => rfl, rfl, rfl, rfl⟩
    · exact ⟨m.modify 0 fun task => { task with running := true }, _, rfl,
        Registry.get?_modify_of_eq_some _ hu,
        goes.coroutine, goes.hale, rfl, fun _ hi => Registry.get?_modify_ne hi,
        Registry.size_modify .., rfl, rfl⟩
  obtain ⟨x, s, hs⟩ := hreturns m₁.view prize
  rw [← houter₁] at hs
  refine ⟨_, below, x, hsends.trans (resume_returns hu₁ hco₁ hs), hg,
    ⟨_, Registry.get?_modify_of_eq_some _
    (Machine.get?_holding hu₁ _ s), hale₁, rfl⟩, fun i hi => ?_, ?_, hpending₁, hsteps₁⟩
  · exact (Registry.get?_modify_ne hi).trans ((Registry.get?_modify_ne hi).trans (hget₁ i hi))
  · exact (Registry.size_modify ..).trans ((Registry.size_modify ..).trans hsize₁)

/-- From then on all tasks ripen: the losers run on. -/
theorem ripens (h : c.Decided w g field prize) (hc : c.Sound begun) :
    ∃ x val, (∀ q ∈ field, ∀ i ∈ q.tasks, val i = q.entrant.output) ∧
      (c.step w o).Ripens w g x (c.machine.steps + (2 * field.length + 1)) val [] := by
  obtain ⟨m, below, x, hs, hg, ⟨u, hu, hale, hco⟩, hget, hsize, hpending, hsteps⟩ :=
    h.step_eq (o := o)
  obtain ⟨val, hroot, hval⟩ := h.tasks.exists_values x
  have hpos : 0 < m.registry.size := Registry.get?_eq_some_lt hu
  have hidle : ∀ t, ¬ Drives (⟨m, below, .complete 0 x⟩ : Config σ) t := by
    simp [Drives, hg.runners_eq]
  have hothers : ∀ t v, t ≠ 0 → m.registry.get? t = some v → v.error = none ∧
      v.Ripens val m.registry.size g t := by
    intro t v ht hv
    rw [hget t ht] at hv
    obtain ⟨q, hq, hmem⟩ := h.tasks.cover (Nat.pos_of_ne_zero ht) (Registry.get?_eq_some_lt hv)
    exact hsize.symm ▸ (h.stands q hq).ripens (hval q hq) (fun i hi => h.tasks.range hq hi) hmem hv
  have hcost : (⟨m, below, .complete 0 x⟩ : Config σ).cost [] ≤
      c.machine.steps + (2 * field.length + 1) := by
    have hlength : c.machine.registry.pending.length ≤ c.machine.registry.size := by
      have hsub : c.machine.registry.pending ⊆ List.range c.machine.registry.size := fun i hi =>
        List.mem_range.mpr (hc.forest.lt_of_mem_pending hi)
      simpa using (List.subperm_of_subset hc.forest.pending_nodup hsub).length_le
    have hbound := h.tasks.size_le
    simp only [cost, hsteps, hpending, List.map_nil, List.sum_nil]
    omega
  refine ⟨x, val, hval, ?_⟩
  rw [hs]
  refine ⟨hroot ▸ .returning 0 (.grounded hg), ⟨hpos, hroot⟩, fun t v hv => ?_,
    fun t _ _ hd => (hidle t hd).elim,
    fun t v hv => ?_, fun v hv hcov => ?_, Nat.le_succ_of_le hcost, fun _ => hcost⟩
  · by_cases ht : t = 0
    · subst ht
      obtain rfl := Option.some.inj (hu.symm.trans hv)
      exact hale
    · exact (hothers t v ht hv).1
  · by_cases ht : t = 0
    · exact Or.inr (Or.inl ⟨x, ht ▸ rfl⟩)
    · exact Or.inr (Or.inr (hothers t v ht hv).2)
  · obtain rfl := Option.some.inj (hu.symm.trans hv)
    rw [hco] at hcov
    cases hcov

/-- **The run ends when all have run**, those that have lost as well. -/
theorem exists_ran (h : c.Decided w g field prize) (hc : c.Sound begun)
    (traceable : c.Traceable w o)
    (hlimit : c.machine.steps + (2 * field.length + 1) ≤ o.stepLimit) :
    ∃ n, ¬ (run w o n c).Exceeded o ∧ (run w o n c).isFinal = true ∧ (run w o n c).Returned ∧
      ∀ q ∈ field, q.Ran (run w o n c).machine.registry := by
  obtain ⟨x, val, hval, hripens⟩ := h.ripens (o := o) hc
  have hone : run w o 1 c = c.step w o := run_one w o h.unfinished 0
  have traceable' : (c.step w o).Traceable w o := hone ▸ traceable.run 1
  obtain ⟨n, hn⟩ := hripens.exists_isFinal (sound_step w o hc) hlimit traceable'
  obtain ⟨val', later, hsame, hended⟩ := hripens.run (sound_step w o hc) hlimit traceable' n
  have hrun : run w o (1 + n) c = run w o n (c.step w o) := by rw [run_add, hone]
  obtain ⟨begun', _, hc'⟩ := sound_run w o hc (1 + n)
  rw [← hrun] at hn hended
  have hreturned := hended.returned hn
  refine ⟨1 + n, hended.not_exceeded (fun owes => ?_) hlimit, hn, hreturned, fun q hq i hi => ?_⟩
  · obtain ⟨hstack, hcontrol⟩ := hreturned
    simp only [Owes, hstack, hcontrol] at owes
  have hstands := h.stands q hq
  have hthere : ∀ {i t}, c.machine.registry.get? i = some t →
      ∃ t', (run w o (1 + n) c).machine.registry.get? i = some t' ∧
      t'.parent = t.parent := fun ht => by
    obtain ⟨t', ht', honward⟩ := onward_run w o ht (1 + n)
    exact ⟨t', ht', honward.parent⟩
  obtain ⟨u₀, hu₀, hroot⟩ := Registry.isDone_iff.mp (hc'.root_over hreturned)
  obtain ⟨t, ht, holds, _⟩ := hstands.place
  obtain ⟨t', ht', hparent⟩ := hthere ht
  have hplace := Registry.Descends.child ht' (hparent.trans holds.parent)
  obtain ⟨v, hv, hdone⟩ : ∃ v, (run w o (1 + n) c).machine.registry.get? i =
      some v ∧ v.done = true := by
    rcases Racer.mem_tasks.mp hi with rfl | ⟨hlate, rfl⟩
    · exact ⟨t', ht', hc'.forest.structured.sheltered _ _ _ _ hplace hu₀ ht' hroot⟩
    · obtain ⟨v, hv, hup, _⟩ := hstands.call hlate
      obtain ⟨v', hv', hparent'⟩ := hthere hv
      exact ⟨v', hv', hc'.forest.structured.sheltered _ _ _ _
        (.deeper hv' (hparent'.trans hup) hplace) hu₀ hv'
        hroot⟩
  refine ⟨v, hv, hdone, ?_⟩
  have hresult := hended.fulfils hc' i (Registry.isDone_iff.mpr ⟨v, hv, hdone⟩)
  have hi' : i < (c.step w o).machine.registry.size :=
    Nat.lt_of_lt_of_le (h.tasks.range hq hi).2 (hone ▸ size_run w o 1)
  rw [hsame i hi', hval q hq i hi] at hresult
  simpa only [Registry.resultOf, hv] using hresult

end Decided

section Saga

variable {outer : σ} {members : Members} {items : List (Value × Entrant)}

/-- Where somebody need not wait, the race of the saga is decided before anything is started. -/
theorem exists_decided_at_once (name : String) (races : w.Races g members (items.map (·.2)) outer)
    (entered : Machine.memberItems members = items.map fun x => (x.1, x.2.effect))
    (hprompt : ∃ q ∈ Racer.lineUp items 1, q.entrant.prompt = true)
    (hlimit : items.length + 1 ≤ o.stepLimit)
    (traceable : Traceable w o (launched outer name g)) :
    ∃ n, started w o (launched outer name g) n = [] ∧
      (run w o n (launched outer name g)).Decided w g (Racer.lineUp items 1)
        (Racer.prize (Machine.isKeyed members) (·.entrant.prompt) (Racer.lineUp items 1)) ∧
      (run w o n (launched outer name g)).machine.steps = items.length + 1 := by
  obtain ⟨m, c, hleads, hunfinished, hidle, hs, linedUp, returns, hsteps⟩ :=
    leads_linedUp (o := o) name races entered hlimit
  obtain ⟨c', hleads', decided, hsteps'⟩ :=
    leads_decided_at_once hunfinished hidle hs linedUp returns hprompt
  obtain ⟨n, rfl, hstarted⟩ := (hleads.trans hleads').exists_run traceable
  exact ⟨n, hstarted, decided, hsteps'.trans hsteps⟩

/-- Where all have to wait, it is decided for the first of those that come soonest. -/
theorem exists_decided_late {k : Racer} (name : String)
    (races : w.Races g members (items.map (·.2)) outer)
    (entered : Machine.memberItems members = items.map fun x => (x.1, x.2.effect))
    (hlate : ∀ q ∈ Racer.lineUp items 1, q.entrant.prompt = false)
    (first : (Racer.lineUp items 1).find? (·.soonest (Racer.lineUp items 1)) = some k)
    (hlimit : items.length + 2 ≤ o.stepLimit) (traceable : Traceable w o (launched outer name g)) :
    ∃ n, (run w o n (launched outer name g)).Decided w g (Racer.lineUp items 1)
        (Racer.prize (Machine.isKeyed members) (fun q => q.place == k.place)
          (Racer.lineUp items 1)) ∧
      (run w o n (launched outer name g)).machine.steps = items.length + 2 := by
  obtain ⟨m, c, hleads, hunfinished, hidle, hs, linedUp, returns, hsteps⟩ :=
    leads_linedUp (o := o) name races entered (Nat.lt_of_succ_lt hlimit)
  have hc := hleads.steady ⟨⟨_, sound_launched outer name g⟩, traceable⟩
  obtain ⟨ids, c', hleads', decided, hsteps'⟩ :=
    leads_decided_late hc hunfinished hidle hs linedUp returns hlate first (hsteps ▸ hlimit)
  obtain ⟨n, rfl, _⟩ := (hleads.trans hleads').exists_run traceable
  exact ⟨n, decided, hsteps'.trans (congrArg (· + 1) hsteps)⟩

/-- Either way it is decided, and those that lose run as well. -/
theorem exists_all_ran (name : String) (nonempty : items ≠ [])
    (races : w.Races g members (items.map (·.2)) outer)
    (entered : Machine.memberItems members = items.map fun x => (x.1, x.2.effect))
    (hlimit : 3 * items.length + 3 ≤ o.stepLimit)
    (traceable : Traceable w o (launched outer name g)) :
    ∃ n, ¬ (run w o n (launched outer name g)).Exceeded o ∧
      (run w o n (launched outer name g)).isFinal = true ∧
      (run w o n (launched outer name g)).Returned ∧
      ∀ q ∈ Racer.lineUp items 1, q.Ran (run w o n (launched outer name g)).machine.registry := by
  have hdecided :
      ∃ n prize, (run w o n (launched outer name g)).Decided w g (Racer.lineUp items 1) prize ∧
      (run w o n (launched outer name g)).machine.steps ≤ items.length + 2 := by
    by_cases hprompt : ∃ q ∈ Racer.lineUp items 1, q.entrant.prompt = true
    · obtain ⟨n, _, decided, hsteps⟩ :=
        exists_decided_at_once (o := o) name races entered hprompt (by omega)
        traceable
      exact ⟨n, _, decided, by omega⟩
    · obtain ⟨k, first⟩ := Racer.exists_first (Racer.lineUp_ne_nil nonempty 1)
      obtain ⟨n, decided, hsteps⟩ := exists_decided_late (o := o) name races entered
        (fun q hq => Bool.eq_false_iff.mpr fun h => hprompt ⟨q, hq, h⟩) first (by omega) traceable
      exact ⟨n, _, decided, hsteps.le⟩
  obtain ⟨n, prize, decided, hsteps⟩ := hdecided
  obtain ⟨begun, hc⟩ := sound_reached w o outer name g n
  have hlength := Racer.length_lineUp items 1
  obtain ⟨j, hj⟩ := decided.exists_ran (o := o) hc (traceable.run n) (by omega)
  rw [← run_add] at hj
  exact ⟨n + j, hj⟩

end Saga

/-- The saga is resumed with the outputs of those that win. Those that are ahead have finished, and
exactly the others are cancelled and abandoned. -/
structure Awards (keyed : Bool) (field : List Racer) (wins ahead : Racer → Bool) (c : Config σ) :
    Prop where
  resumed : c.resumption? 0 = some (.send (Racer.prize keyed wins field))
  stands : ∀ q ∈ field, q.Stands (ahead q) (ahead q) (!ahead q) c.machine.registry

theorem Decided.awards {wins ahead : Racer → Bool}
    (h : c.Decided w g field (Racer.prize keyed wins field))
    (hahead : ∀ q ∈ field, q.soonest field = ahead q) : c.Awards keyed field wins ahead where
  resumed := h.resumption?_eq
  stands := fun q hq => hahead q hq ▸ h.stands q hq

end Config

/-- Once it is known who comes soonest, it is known who comes as soon. -/
theorem Racer.soonest_eq_le {field : List Racer} {k : Racer} (hk : k ∈ field)
    (hsoonest : k.soonest field = true)
    (q : Racer) : q.soonest field = q.entrant.wait.le k.entrant.wait := by
  rw [Bool.eq_iff_iff, soonest_iff]
  exact ⟨fun h => h k hk, fun h q' hq' => Wait.le_trans h (soonest_iff.mp hsoonest q' hq')⟩

namespace Racer

/-- The world of a saga that races. It knows whether the saga has been asked, and which calls are
still to be planned. -/
def world (members : Members) : World (Bool × List Entrant) where
  resume _ _ signal s :=
    match signal with
    | .send _ =>
      if s.1 then (.returned .null, s) else (.yielded (.effect (.race members)), true, s.2)
    | .throw e => (.raised e, s)
  plan _ _ _ s :=
    match s.2 with
    | [] => (.error (.harness (.plain "no plan")), s)
    | e :: rest => (.ok e.plan, s.1, rest)
  invoke _ _ s := (.ok .null, s)
  handler? _ := none

/-- Every race can be planned, with any waits. -/
theorem races_world (members : Members) (entrants : List Entrant) (g : Nat) :
    (world members).Races g members entrants (false, entrants) := by
  have hschedules : ∀ entrants,
      (world members).Schedules ((world members).Returns g) entrants (true, entrants) := by
    intro entrants
    induction entrants with
    | nil => exact fun view v => ⟨_, _, rfl⟩
    | cons e rest ih => exact fun view => ⟨_, rfl, ih⟩
  exact fun view => ⟨_, rfl, hschedules entrants⟩

/-- A call with an integer for its output, at a tick. -/
def timed (n tick : Int) : Entrant :=
  ⟨⟨.null, [], []⟩, .int n, .tick tick, fun _ => Value.noConfusion, fun _ => Wait.noConfusion⟩

/-- Of three calls the first comes last, and the two others come together. -/
def sample : List Entrant := [timed 1 5, timed 2 2, timed 3 2]

/-- The three calls as a list. -/
def sampleMembers : Members := .listed (sample.map Entrant.effect)

end Racer

end Rehearsal
