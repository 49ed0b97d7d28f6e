import Rehearsal.Proofs.Engine.Ripening

/-!
# What the scheduler makes of tasks that ripen

Picking, starting, ending and waking tasks keeps to what was said of them. As some task is
unfinished only if a call is left to be made, the main loop always finds something to do.
-/
namespace Rehearsal

variable {σ : Type} {begun : Nat → Prop} {val : Nat → Value}
    {n t g budget : Nat} {stack : List Frame}
  {later : List Assembly} {w : World σ} {o : RunOptions} {outcome : Value} {m : Machine σ}

namespace Config.Ripens

/-! ### Where tasks end -/

/-- A task that returns is over, or held with what it returned. -/
theorem ripens_wrapUp {u u' : Task} (hu : m.registry.get? t = some u)
    (hu' : (m.complete o t (val t)).registry.get? t = some u') :
    u'.coroutine = none ∧ u'.Ripens val n g t := by
  have he : (m.wrapUp o t (.returned (val t)) (val t)).registry.get? t = some u' := hu'
  by_cases hl : m.registry.live u = []
  · rw [Machine.get?_wrapUp hu hl, Option.some.injEq] at he
    subst he
    exact ⟨rfl, .ended rfl rfl⟩
  · unfold Machine.wrapUp at he
    rcases Machine.holdForChildren_cases o hu
      (.returned (val t)) with ⟨m', hm, _, hreg⟩ | ⟨_, _, hnil, _⟩
    · simp only [hm] at he
      rw [hreg, Registry.get?_modify_of_eq_some _ hu, Option.some.injEq] at he
      subst he
      exact ⟨rfl, .blocked rfl (.children rfl rfl nofun) fun hk => (hk rfl).elim⟩
    · exact (hl hnil).elim

/-- Whoever is in the hands of the scheduler itself does not run. -/
theorem not_mem_runners {control : Control} (hc : Config.Sound begun ⟨m, stack, control⟩)
    (h : (∃ v, control = .complete t v) ∨ control = .runTask t ∨ control = .start t) :
    t ∉ runners stack := by
  rcases h with ⟨_, rfl⟩ | rfl | rfl <;> cases hc <;> exact Core.aside ‹_› t rfl

theorem step_returning (h : Ripens w g outcome budget val later ⟨m, stack, .complete t (val t)⟩)
    (hc : Config.Sound begun ⟨m, stack, .complete t (val t)⟩)
    (hb : Between val m.registry.size stack later) :
    (step w o ⟨m, stack, .complete t (val t)⟩).Ripens w g outcome budget val later := by
  have haside := not_mem_runners hc (Or.inl ⟨_, rfl⟩)
  refine h.carry hc rfl id (Machine.steps_complete ..) (Machine.outer_wrapUp ..)
    (.resting hb) ?_ ?_ False.elim
  · intro i _
    simp [Drives, step, halt]
  · rintro i u u' rfl hu hu'
    obtain ⟨hco, hr⟩ := ripens_wrapUp hu hu'
    exact ⟨Or.inr hco, fun hd => (haside (by simpa [Drives, step, halt] using hd)).elim,
      Or.inr (Or.inr hr)⟩

/-- Bubbling begins a round, or is over, or cannot be traced. -/
theorem step_bubbling {ids : List Nat}
    (h : Ripens w g outcome budget val [] ⟨m, [.loop 0], .bubble ids⟩)
    (hc : Config.Sound begun ⟨m, [.loop 0], .bubble ids⟩) (hlimit : budget ≤ o.stepLimit) :
    (step w o ⟨m, [.loop 0], .bubble ids⟩).Ripens w g outcome budget val [] ∨
      (step w o ⟨m, [.loop 0], .bubble ids⟩).Untraced o := by
  rcases bubble_cases o m [.loop 0] ids with ⟨_, heq⟩ | ⟨_, ⟨trace, heq⟩ | ⟨long, heq⟩⟩
  · have hs : step w o ⟨m, [.loop 0], .bubble ids⟩ = halt m [.loop 0] := heq
    refine .inl ?_
    rw [hs]
    refine h.carry hc hs id rfl rfl .looking ?_ (fun t u u' hf => hf.elim) False.elim
    intro t _
    simp [Drives, halt]
  · have hs : step w o ⟨m, [.loop 0], .bubble ids⟩ =
      halt { m with trace } [.round ids m.registry.pending, .loop 0] := heq
    refine .inl ?_
    rw [hs]
    refine h.carry hc hs id rfl rfl (.resting (.grounded (.round _ _))) ?_
      (fun t u u' hf => hf.elim) False.elim
    intro t _
    simp [Drives, halt, runners, Frame.runner?]
  · have hs : step w o ⟨m, [.loop 0], .bubble ids⟩ = ⟨m, [.loop 0], .abort (.exn m.unwritable)⟩ :=
      heq
    have hsteps : m.steps + m.registry.pending.length ≤ budget := h.solvent id
    refine .inr ?_
    rw [hs]
    exact ⟨long, Nat.not_lt.mpr (by dsimp only; omega), unwritten_abort ..⟩

/-! ### Where tasks are picked -/

/-- A call that is made has its output for a value. -/
theorem start_planned {u : Task} {call : Call} {wait : Wait} {v : Value}
    (hu : m.registry.get? t = some u)
    (entry : u.entry = some (.planned ⟨false, v, none, wait⟩ call))
    (plain : ∀ g, v ≠ .generator g) :
    start w o m stack t =
      halt ((m.modify t fun task => { task with entry := none }).complete o t v) stack := by
  rw [start_eq w o hu entry]
  show afterEntry o (m.modify t _) stack t (.ok v) = _
  unfold afterEntry
  split
  · rename_i g hv
    exact (plain g (Except.ok.inj hv)).elim
  · rename_i hv
    cases hv
    rfl
  · rename_i hv
    cases hv

/-- A call whose turn it is is made, and is over. -/
theorem step_starting (h : Ripens w g outcome budget val [] ⟨m, stack, .start t⟩)
    (hc : Config.Sound begun ⟨m, stack, .start t⟩) (hg : Grounded stack) :
    (step w o ⟨m, stack, .start t⟩).Ripens w g outcome budget val [] := by
  have haside := not_mem_runners hc (Or.inr (Or.inr rfl))
  obtain ⟨u, hu, fresh⟩ : ∃ u, m.registry.get? t = some u ∧ u.Fresh := by
    cases hc with
    | starting _ _ hu fresh _ => exact ⟨_, hu, fresh⟩
  have hpending : t ∈ m.registry.pending := hc.forest.mem_pending.mpr ⟨u, hu, fresh.done⟩
  have hu₁ : (m.modify t fun task => { task with entry := none }).registry.get? t =
      some { u with entry := none } := Registry.get?_modify_of_eq_some _ hu
  cases h.ripens_aside (by simpa [Drives] using haside) (fun _ hv => by cases hv) hu with
  | ended done _ =>
    rw [fresh.done] at done
    cases done
  | blocked interruption _ _ =>
    rw [fresh.interruption] at interruption
    cases interruption
  | planned _ _ entry plain =>
    have hs : step w o ⟨m, stack, .start t⟩ = _ := start_planned hu entry plain
    have hlive : (m.modify t fun task => { task with entry := none }).registry.live
        { u with entry := none } = [] := by
      simp [Registry.live, fresh.children]
    have hdone : (step w o ⟨m, stack, .start t⟩).machine.registry.isDone t = true :=
      hs ▸ (Machine.isDone_complete hu₁ fresh.done (val t)).mpr hlive
    have hlt :=
      (amends_step w o ⟨m, stack, .start t⟩).length_pending_lt id (sound_step w o hc).forest
      hpending hdone
    rw [hs] at hlt ⊢
    refine h.carry hc hs id (Machine.steps_complete ..) (Machine.outer_wrapUp ..)
      (.resting (.grounded hg)) ?_ ?_ fun _ => Or.inr hlt
    · intro i _
      simp [Drives, halt]
    · rintro i u₀ u' rfl _ hu'
      obtain ⟨hco, hr⟩ := ripens_wrapUp hu₁ hu'
      exact ⟨Or.inr hco, fun hd => (haside (by simpa [Drives, halt] using hd)).elim,
        Or.inr (Or.inr hr)⟩

/-- A task that has waited for its children is over once it is run. -/
theorem runTask_returned {u : Task} (hu : m.registry.get? t = some u) {i : Interruption} {v : Value}
    (answered : u.Answered i (.returned v)) (hk : i.kind = .children) :
    step w o ⟨m, stack, .runTask t⟩ = halt
      ((({ m with handled := none } : Machine σ).modify t fun task =>
        { task with interruption := none }).finalize t v) stack := by
  obtain ⟨kind, pending, dependencies, answer⟩ := i
  obtain rfl : kind = .children := hk
  obtain rfl : answer = some (.returned v) := answered.answer
  show runTask m stack t = _
  unfold runTask
  simp only [show m.get? t = some u from hu, answered.interruption, if_true]

/-- A task that has been answered goes on with what was promised, or is over. -/
theorem step_answered (h : Ripens w g outcome budget val [] ⟨m, stack, .runTask t⟩)
    (hc : Config.Sound begun ⟨m, stack, .runTask t⟩) (hg : Grounded stack) {u : Task}
    (hu : m.registry.get? t = some u) {i : Interruption} {a : Pending} (answered : u.Answered i a)
    (promises : i.Promises val m.registry.size (val t))
    (coroutine : i.kind ≠ .children → u.coroutine = Coroutine.ofRoot g t) :
    (step w o ⟨m, stack, .runTask t⟩).Ripens w g outcome budget val [] := by
  have haside := not_mem_runners hc (Or.inr (Or.inl rfl))
  have howes : ¬ Owes ⟨m, stack, .runTask t⟩ := by
    rintro ⟨v, hv, hnone⟩
    obtain rfl := Option.some.inj (hu.symm.trans hv)
    rw [answered.interruption] at hnone
    cases hnone
  by_cases hk : i.kind = .children
  · have ha : a = .returned (val t) := by
      cases promises with
      | child kind _ _ _ _ => simp [kind] at hk
      | gather kind _ _ => simp [kind] at hk
      | children _ _ answer => exact answer a answered.answer
    subst ha
    have hs : step w o ⟨m, stack, .runTask t⟩ = _ := runTask_returned hu answered hk
    rw [hs]
    refine h.carry hc hs id rfl rfl (.resting (.grounded hg)) ?_ ?_ fun ho => (howes ho).elim
    · intro j _
      simp [Drives, halt]
    · rintro j u₀ u' rfl _ hu'
      have hu₁ : (({ m with handled := none } : Machine σ).modify j fun task =>
          { task with interruption := none }).registry.get? j =
            some { u with interruption := none } :=
        Registry.get?_modify_of_eq_some _ hu
      obtain rfl := Option.some.inj ((Machine.get?_finalize hu₁ (val j)).symm.trans hu')
      exact ⟨Or.inr rfl, fun hd => (haside (by simpa [Drives, halt] using hd)).elim,
        Or.inr (Or.inr (.ended rfl rfl))⟩
  · have ha : a = .value (val t) := by
      cases promises with
      | child _ _ _ _ answer => exact answer a answered.answer
      | gather _ _ answer => exact answer a answered.answer
      | children kind _ _ => exact (hk kind).elim
    subst ha
    have hs :=
      Config.step_answered (c := ⟨m, stack, .runTask t⟩) w o rfl hu answered.interruption hk
      answered.answer
    rw [hs]
    have hco := coroutine hk
    by_cases ht : t = 0
    · subst ht
      have hsome : u.coroutine.isSome = true := by rw [hco]; rfl
      simp only [hsome, if_true] at hs ⊢
      refine h.carry hc hs id rfl rfl (.resuming hg) ?_ ?_ fun ho => (howes ho).elim
      · intro j hj
        have hne : j ≠ 0 := hj
        simp [Drives, Ne.symm hne]
      · rintro j u₀ u' rfl hu₀ hu'
        obtain rfl := Option.some.inj (hu.symm.trans hu₀)
        obtain rfl := Option.some.inj ((Registry.get?_modify_of_eq_some _ hu).symm.trans hu')
        exact ⟨Or.inl rfl, fun _ => hco, Or.inl (Or.inr ⟨_, rfl⟩)⟩
    · have hnone : u.coroutine = none := by rw [hco, Coroutine.ofRoot, if_neg ht]
      simp only [hnone, Option.isSome_none, Bool.false_eq_true, if_false] at hs ⊢
      refine h.carry hc hs id rfl rfl (.returning t (.grounded hg)) ?_ ?_ fun ho => (howes ho).elim
      · intro j _
        simp [Drives]
      · rintro j u₀ u' rfl hu₀ hu'
        obtain rfl := Option.some.inj (hu.symm.trans hu₀)
        obtain rfl := Option.some.inj ((Registry.get?_modify_of_eq_some _ hu).symm.trans hu')
        exact ⟨Or.inl rfl, fun _ => hco, Or.inr (Or.inl ⟨_, rfl⟩)⟩

/-- A task that is picked is a call that has not been made, or goes on with what it waited for. -/
theorem step_picking (h : Ripens w g outcome budget val [] ⟨m, stack, .runTask t⟩)
    (hc : Config.Sound begun ⟨m, stack, .runTask t⟩) (hg : Grounded stack) :
    (step w o ⟨m, stack, .runTask t⟩).Ripens w g outcome budget val [] := by
  have hidle : ¬ Drives (⟨m, stack, .runTask t⟩ : Config σ) t := by
    simpa [Drives] using not_mem_runners hc (Or.inr (Or.inl rfl))
  obtain ⟨u, hu, ready⟩ : ∃ u, m.registry.get? t = some u ∧ (u.Fresh ∨ ∃ i a, u.Answered i a) := by
    cases hc with
    | selected _ _ hu ready => exact ⟨_, hu, ready.imp_left And.left⟩
  have hripens := h.ripens_aside hidle (fun _ hv => by cases hv) hu
  rcases ready with fresh | ⟨i, a, answered⟩
  · have hs : step w o ⟨m, stack, .runTask t⟩ = ⟨{ m with handled := none }, stack, .start t⟩ := by
      show runTask m stack t = _
      unfold runTask
      simp only [show m.get? t = some u from hu, fresh.interruption]
    rw [hs]
    refine h.carry hc hs id rfl rfl (.starting t hg) ?_ ?_ fun _ => Or.inl trivial
    · intro i _
      simp [Drives]
    · rintro i u₀ u' rfl hu₀ hu'
      obtain rfl := Option.some.inj (hu₀.symm.trans hu')
      obtain rfl := Option.some.inj (hu.symm.trans hu₀)
      exact ⟨Or.inl rfl, fun hd => (hidle (by simpa [Drives] using hd)).elim,
        Or.inr (Or.inr hripens)⟩
  · obtain ⟨promises, coroutine⟩ := hripens.of_blocked answered.done answered.interruption
    exact h.step_answered hc hg hu answered promises coroutine

/-! ### Batches and rounds -/

/-- Where a batch or a round has come to its end, what has finished is told next. -/
theorem reaped {f : Frame} (h : Ripens w g outcome budget val [] ⟨m, [f, .loop 0], .done⟩)
    (hc : Config.Sound begun ⟨m, [f, .loop 0], .done⟩)
    (hf : f = .batch [] ∨ ∃ ids, f = .round ids []) :
    (step w o ⟨m, [f, .loop 0], .done⟩).Ripens w g outcome budget val [] := by
  have hs : step w o ⟨m, [f, .loop 0], .done⟩ =
      ⟨{ m with registry := m.registry.reap.1 }, [.loop 0], .bubble m.registry.finished⟩ := by
    rcases hf with rfl | ⟨ids, rfl⟩ <;> rfl
  rw [hs]
  refine h.carry hc hs ?_ rfl rfl (.bubbling _) ?_ ?_ ?_ <;> rcases hf with rfl | ⟨ids, rfl⟩
  · exact id
  · exact id
  · intro t _
    simp [Drives, runners, Frame.runner?]
  · intro t _
    simp [Drives, runners, Frame.runner?]
  · exact fun t u u' hf => hf.elim
  · exact fun t u u' hf => hf.elim
  · rintro ⟨t, ht, _⟩
    cases ht
  · exact False.elim

/-- A batch is gone through; whoever can be selected is. -/
theorem step_batch {rest : List Nat}
    (h : Ripens w g outcome budget val [] ⟨m, [.batch (t :: rest), .loop 0], .done⟩)
    (hc : Config.Sound begun ⟨m, [.batch (t :: rest), .loop 0], .done⟩) :
    (step w o ⟨m, [.batch (t :: rest), .loop 0], .done⟩).Ripens w g outcome budget val [] := by
  have hdrives : ∀ control, (control = .done ∨ control = .runTask t) → ∀ i,
      (Drives (⟨m, [.batch rest, .loop 0], control⟩ : Config σ) i ↔
        Drives (⟨m, [.batch (t :: rest), .loop 0], .done⟩ : Config σ) i) := by
    rintro control (rfl | rfl) i <;> simp [Drives, runners, Frame.runner?]
  have hskip : (∀ u, m.registry.get? t = some u → u.isSelectable = false) →
      step w o ⟨m, [.batch (t :: rest), .loop 0], .done⟩ = ⟨m, [.batch rest, .loop 0], .done⟩ →
      (step w o ⟨m, [.batch (t :: rest), .loop 0], .done⟩).Ripens w g outcome budget val [] := by
    intro hn hs
    rw [hs]
    refine h.carry hc hs id rfl rfl (.resting (.grounded (.batch _)))
      (fun i _ => hdrives _ (Or.inl rfl) i)
      (fun t u u' hf => hf.elim) ?_
    rintro ⟨i, hi, u, hu, hsel⟩
    refine Or.inl ⟨i, (List.mem_cons.mp hi).resolve_left ?_, u, hu, hsel⟩
    rintro rfl
    rw [hn u hu] at hsel
    cases hsel
  have hcore : ∀ u, m.registry.get? t = some u → u.isSelectable = true → u.Fresh := by
    intro u hu hsel
    cases hc with
    | resting core _ => exact (core.stands hu).fresh_of_selectable hsel
  cases hu : m.registry.get? t with
  | none =>
    refine hskip (fun u hu' => by rw [hu] at hu'; cases hu') ?_
    show continueBatch m [.loop 0] (t :: rest) = _
    unfold continueBatch
    simp only [show m.get? t = none from hu]
    rfl
  | some u =>
    have hstep : step w o ⟨m, [.batch (t :: rest), .loop 0], .done⟩ =
        if u.isSelectable then ⟨m, [.batch rest, .loop 0], .runTask t⟩
        else ⟨m, [.batch rest, .loop 0], .done⟩ := by
      show continueBatch m [.loop 0] (t :: rest) = _
      unfold continueBatch
      simp only [show m.get? t = some u from hu]
      rfl
    cases hsel : u.isSelectable with
    | false =>
      rw [hsel] at hstep
      refine hskip (fun u' hu' => ?_) hstep
      obtain rfl := Option.some.inj (hu.symm.trans hu')
      exact hsel
    | true =>
      rw [hsel] at hstep
      have hs : step w o ⟨m, [.batch (t :: rest), .loop 0], .done⟩ =
        ⟨m, [.batch rest, .loop 0], .runTask t⟩ := hstep
      rw [hs]
      exact h.carry hc hs id rfl rfl (.picking t (.batch _)) (fun i _ => hdrives _ (Or.inr rfl) i)
        (fun t u u' hf => hf.elim) fun _ => Or.inl ⟨u, hu, (hcore u hu hsel).interruption⟩

/-- A blocked task is settled by a round in which it has its turn. -/
theorem exists_settled {ids rest : List Nat} {u : Task} {i : Interruption}
    (core : Core begun m.registry [] [.round ids (t :: rest), .loop 0] none)
    (hu : m.registry.get? t = some u)
    (h : (∃ news, news = Rehearsal.news m.registry [] [.round ids (t :: rest), .loop 0] t ∧
      u.Waiting m.registry news i) ∨ u.Holding i) :
    ∃ ok i' r', (m.registry.modify t (·.removeChildren ids)).settle t i ids = .ok (ok, i', r') := by
  rcases h with ⟨_, rfl, h⟩ | h
  · obtain ⟨ok, i', r', he, _⟩ := settle_visited core hu h
    exact ⟨ok, i', r', he⟩
  · have hu₁ := Registry.get?_modify_of_eq_some (·.removeChildren ids) hu
    rw [Registry.settle_children hu₁ h.kind]
    split
    · exact ⟨_, _, _, rfl⟩
    · exact ⟨_, _, _, rfl⟩

/-- Where nothing runs, whoever is there ripens. -/
theorem ripens_at_rest {u : Task} (h : Ripens w g outcome budget val later ⟨m, stack, .done⟩)
    (hr : runners stack = []) (hu : m.registry.get? t = some u) :
    u.Ripens val m.registry.size g t := by
  exact h.ripens_aside (by simp [Drives, hr]) (fun _ hv => by cases hv) hu

/-- A task has its turn in a round, and ripens as before; it may be selected. -/
theorem turn {ids rest : List Nat} {r : Registry} {control : Control}
    (h : Ripens w g outcome budget val [] ⟨m, [.round ids (t :: rest), .loop 0], .done⟩)
    (hc : Config.Sound begun ⟨m, [.round ids (t :: rest), .loop 0], .done⟩)
    (hs : step w o ⟨m, [.round ids (t :: rest), .loop 0], .done⟩ =
      ⟨{ m with registry := r }, [.round ids rest, .loop 0], control⟩)
    (hcontrol : control = .done ∨ control = .runTask t)
    (worked : ∀ u u', m.registry.get? t = some u → r.get? t = some u' →
      u'.coroutine = u.coroutine ∧ u'.Ripens val m.registry.size g t) :
    (step w o ⟨m, [.round ids (t :: rest), .loop 0], .done⟩).Ripens w g outcome budget val [] := by
  have hidle : ∀ i,
      ¬ Drives (⟨{ m with registry := r }, [.round ids rest, .loop 0], control⟩ : Config σ) i := by
    rcases hcontrol with rfl | rfl <;> simp [Drives, runners, Frame.runner?]
  have hidle₀ : ∀ i, ¬ Drives (⟨m, [.round ids (t :: rest), .loop 0], .done⟩ : Config σ) i := by
    simp [Drives, runners, Frame.runner?]
  have haccords : Accords val m.registry.size [.round ids rest, .loop 0] control [] := by
    rcases hcontrol with rfl | rfl
    · exact .resting (.grounded (.round _ _))
    · exact .picking t (.round _ _)
  rw [hs]
  refine h.carry hc hs id rfl rfl haccords
    (fun i _ => iff_of_false (hidle i) (hidle₀ i)) ?_ False.elim
  rintro i u u' rfl hu hu'
  obtain ⟨hco, hr⟩ := worked u u' hu hu'
  exact ⟨Or.inl hco, fun hd => (hidle i hd).elim, Or.inr (Or.inr hr)⟩

/-- What a blocked task waits for may be answered in its turn, with what was promised. -/
theorem turn_blocked {ids rest : List Nat} {u : Task} {i : Interruption}
    (h : Ripens w g outcome budget val [] ⟨m, [.round ids (t :: rest), .loop 0], .done⟩)
    (hc : Config.Sound begun ⟨m, [.round ids (t :: rest), .loop 0], .done⟩)
    (hended : ∀ d ∈ ids, m.registry.isDone d = true)
    (hu : m.registry.get? t = some u) (hb : u.Blocked i)
    (settles :
      ∃ ok i' r', (m.registry.modify t (·.removeChildren ids)).settle t i ids = .ok (ok, i', r')) :
    (step w o ⟨m, [.round ids (t :: rest), .loop 0], .done⟩).Ripens w g outcome budget val [] := by
  obtain ⟨ok, i', r', hsettle⟩ := settles
  have hr : (m.registry.modify t (·.removeChildren ids)).Fulfils val :=
    (h.fulfils hc).modify t _ (fun _ => rfl) fun _ => rfl
  have hids : ∀ d ∈ ids, (m.registry.modify t (·.removeChildren ids)).isDone d = true := by
    intro d hd
    rw [Registry.isDone_modify _ t d (·.removeChildren ids) fun _ => rfl]
    exact hended d hd
  obtain ⟨promises, coroutine⟩ := (h.ripens_at_rest rfl hu).of_blocked hb.done hb.interruption
  obtain ⟨rfl, hkind, promises'⟩ := promises.settle hr hids hsettle
  refine h.turn hc (continueRound_blocked hu hb hsettle) ?_ ?_
  · cases ok
    · exact Or.inl rfl
    · exact Or.inr rfl
  · intro u₀ u' hu₀ hu'
    obtain rfl := Option.some.inj (hu.symm.trans hu₀)
    have hu₁ := Registry.get?_modify_of_eq_some (·.awaiting i')
      (Registry.get?_modify_of_eq_some (·.removeChildren ids) hu)
    obtain rfl := Option.some.inj (hu₁.symm.trans hu')
    exact ⟨rfl, .blocked rfl promises' fun hk => coroutine (hkind ▸ hk)⟩

/-- A round is gone through: those that are blocked are settled, and nobody else changes. -/
theorem step_round {ids rest : List Nat}
    (h : Ripens w g outcome budget val [] ⟨m, [.round ids (t :: rest), .loop 0], .done⟩)
    (hc : Config.Sound begun ⟨m, [.round ids (t :: rest), .loop 0], .done⟩) :
    (step w o ⟨m, [.round ids (t :: rest), .loop 0], .done⟩).Ripens w g outcome budget val [] := by
  have core : Core begun m.registry [] [.round ids (t :: rest), .loop 0] none := by
    cases hc with
    | resting core _ => exact core
  have hended : ∀ d ∈ ids, m.registry.isDone d = true := core.frames _ (List.mem_cons_self ..)
  have hpass : continueRound m [.loop 0] ids (t :: rest) = ⟨m, [.round ids rest, .loop 0], .done⟩ →
      (step w o ⟨m, [.round ids (t :: rest), .loop 0], .done⟩).Ripens w g
        outcome budget val [] := by
    refine fun hs => h.turn hc hs (Or.inl rfl) fun u u' hu hu' => ?_
    obtain rfl := Option.some.inj (hu.symm.trans hu')
    exact ⟨rfl, h.ripens_at_rest rfl hu⟩
  cases hu : m.registry.get? t with
  | none =>
    refine hpass ?_
    unfold continueRound
    simp only [show m.get? t = none from hu]
    rfl
  | some u =>
    have hget : m.get? t = some u := hu
    cases core.stands hu with
    | ended done _ =>
      refine hpass ?_
      unfold continueRound
      simp only [hget, done, if_true]
      rfl
    | active _ running =>
      have hrun := (core.running_iff hu).mp running
      simp [runners, Frame.runner?] at hrun
    | waiting i hw =>
      exact h.turn_blocked hc hended hu hw.toBlocked (exists_settled core hu (Or.inl ⟨_, rfl, hw⟩))
    | holding i hw =>
      exact h.turn_blocked hc hended hu hw.toBlocked (exists_settled core hu (Or.inr hw))
    | fresh fresh =>
      have hs : continueRound m [.loop 0] ids (t :: rest) =
          ⟨m.modify t (·.removeChildren ids), [.round ids rest, .loop 0], .done⟩ := by
        unfold continueRound
        simp only [hget, fresh.done, fresh.interruption, Bool.false_eq_true, if_false]
        rfl
      refine h.turn hc hs (Or.inl rfl) fun u₀ u' hu₀ hu' => ?_
      obtain rfl := Option.some.inj (hu.symm.trans hu₀)
      obtain rfl := Option.some.inj ((Registry.get?_modify_of_eq_some _ hu).symm.trans hu')
      have hr := (h.ripens_at_rest rfl hu).spared false false (u.removeChildren ids).children
      rw [Task.flag_false] at hr
      exact ⟨rfl, hr⟩

/-! ### The main loop -/

/-- Where nothing goes on, a task has not been started or waits for a later one that is unfinished.
-/
theorem unstarted_or_waits (h : Ripens w g outcome budget val [] ⟨m, [.loop 0], .done⟩)
    (hc : Config.Sound begun ⟨m, [.loop 0], .done⟩) {u : Task} (hu : m.registry.get? t = some u)
    (hd : u.done = false) : u.Unstarted ∨ ∃ d, t < d ∧ m.registry.Unfinished d := by
  obtain ⟨core, heard⟩ : Core begun m.registry [] [.loop 0] none ∧ m.registry.finished = [] := by
    cases hc with
    | looking core heard => exact ⟨core, heard⟩
    | resting _ nested => exact nested.ne_loop.elim
  have hnews : news m.registry [] [.loop 0] t = [] := by simp [news, Frame.tells, heard]
  have hst := core.stands hu
  rw [hnews] at hst
  cases hst with
  | ended done _ =>
    rw [hd] at done
    cases done
  | fresh fresh => exact Or.inl ⟨fresh.interruption, fresh.children, fresh.coroutine⟩
  | active _ running => exact (List.not_mem_nil ((core.running_iff hu).mp running)).elim
  | waiting i hw =>
    obtain ⟨d, hd⟩ := List.exists_mem_of_ne_nil _ hw.awaits.nonempty
    have hjoin := ((h.ripens_at_rest rfl hu).of_blocked hw.done hw.interruption).1.ne_join
    obtain ⟨v, hv, hparent, _⟩ := hw.awaits.owned hjoin d hd
    rw [core.forest.id_eq hu] at hparent
    exact Or.inr ⟨d, core.forest.parent_lt hv hparent, (hw.hears d hd).unfinished⟩
  | holding i hw =>
    obtain ⟨d, hd⟩ := List.exists_mem_of_ne_nil _ hw.children
    obtain ⟨v, hv, hparent⟩ := core.forest.parent_eq hu hd
    have hears := core.hears hu d hd
    rw [hnews] at hears
    exact Or.inr ⟨d, core.forest.parent_lt hv hparent, hears.unfinished⟩

/-- **There is always something to do**: as long as a task is unfinished some call has not been
made. -/
theorem batch_ne_nil (h : Ripens w g outcome budget val [] ⟨m, [.loop 0], .done⟩)
    (hc : Config.Sound begun ⟨m, [.loop 0], .done⟩) (hopen : m.registry.pending ≠ []) :
    selectReadyBatch m.registry.pendingTasks ≠ [] := by
  -- what a task waits for is later than the task, and there are only so many
  have hunstarted : ∀ k t, m.registry.size ≤ t + k → m.registry.Unfinished t →
      ∃ i u, m.registry.get? i = some u ∧ u.done = false ∧ u.Unstarted := by
    intro k
    induction k with
    | zero =>
      rintro t hle ⟨u, hu, _⟩
      exact (Nat.not_lt_of_le hle (Registry.get?_eq_some_lt hu)).elim
    | succ k ih =>
      rintro t hle ⟨u, hu, hd⟩
      rcases h.unstarted_or_waits hc hu hd with hun | ⟨d, hlt, hopen⟩
      · exact ⟨t, u, hu, hd, hun⟩
      · exact ih d (by omega) hopen
  obtain ⟨t, ht⟩ := List.exists_mem_of_ne_nil _ hopen
  obtain ⟨i, u, hu, hd, hun⟩ :=
    hunstarted m.registry.size t (Nat.le_add_left ..) (hc.forest.mem_pending.mp ht)
  exact selectable_of_unstarted hc.forest (hc.quiet ⟨rfl, 0, rfl⟩) hu hd hun

theorem selectable_of_mem_batch {tasks : List Task} {u : Task} (h : u ∈ selectReadyBatch tasks) :
    u ∈ tasks ∧ u.isSelectable = true := by
  unfold selectReadyBatch at h
  dsimp only at h
  split at h
  · exact List.mem_filter.mp (List.mem_filter.mp h).1
  · exact List.mem_filter.mp (List.mem_filter.mp h).1

/-- The main loop ends with the root, or picks a batch, and has the step left that it takes; or the
batch cannot be traced. -/
theorem step_looking (h : Ripens w g outcome budget val [] ⟨m, [.loop 0], .done⟩)
    (hc : Config.Sound begun ⟨m, [.loop 0], .done⟩) (hlimit : budget ≤ o.stepLimit) :
    (step w o ⟨m, [.loop 0], .done⟩).Ripens w g outcome budget val [] ∨
      (step w o ⟨m, [.loop 0], .done⟩).Untraced o := by
  cases hend : settled o m 0 with
  | true =>
    have hs : step w o ⟨m, [.loop 0], .done⟩ = halt m [] := continueLoop_of_settled hend
    refine .inl ?_
    rw [hs]
    refine h.carry hc hs id rfl rfl .settled ?_ (fun t u u' hf => hf.elim) False.elim
    intro t _
    simp [Drives, halt, runners, Frame.runner?]
  | false =>
    have hopen : m.registry.pending ≠ [] := by
      intro hnil
      obtain ⟨u, hu⟩ := Registry.exists_of_lt h.root.1
      have hdone : m.registry.isDone 0 = true := by
        cases hd : u.done with
        | true => exact Registry.isDone_iff.mpr ⟨u, hu, hd⟩
        | false =>
          have hmem := hc.forest.mem_pending.mpr ⟨u, hu, hd⟩
          rw [show (⟨m, [.loop 0], .done⟩ : Config σ).machine.registry.pending =
            [] from hnil] at hmem
          cases hmem
      simp [settled, hdone, hnil] at hend
    have hsteps : m.steps + m.registry.pending.length ≤ budget := h.solvent id
    have hlt : m.steps < o.stepLimit := by
      have hpos := List.length_pos_iff.mpr hopen
      omega
    have hbatch := h.batch_ne_nil hc hopen
    rcases continueLoop_of_ready hend hlt hbatch with ⟨trace, heq⟩ | ⟨long, heq⟩
    · have hs : step w o ⟨m, [.loop 0], .done⟩ = halt { m.counted with trace }
        [.batch ((selectReadyBatch m.registry.pendingTasks).map (·.id)), .loop 0] := heq
      refine .inl ?_
      rw [hs]
      refine h.next hs (fun _ _ => rfl) (.resting (.grounded (.batch _))) ?_ ?_ h.heard ?_
        fun hn => (hn ?_).elim
      · intro t _
        simp [Drives, halt, runners, Frame.runner?]
      · intro t u hw hu
        exact (hw.elim id (Nat.not_le_of_lt (Registry.get?_eq_some_lt hu))).elim
      · show m.steps + 1 + m.registry.pending.length + 0 ≤ budget + 1
        omega
      · obtain ⟨x, hx⟩ := List.exists_mem_of_ne_nil _ hbatch
        obtain ⟨hmem, hsel⟩ := selectable_of_mem_batch hx
        obtain ⟨i, hi, _⟩ := hc.forest.mem_pendingTasks.mp hmem
        exact ⟨i, List.mem_map.mpr ⟨x, hx, hc.forest.id_eq hi⟩, x, hi, hsel⟩
    · have hs : step w o ⟨m, [.loop 0], .done⟩ =
        ⟨m.counted, [.loop 0], .abort (.exn m.counted.unwritable)⟩ := heq
      refine .inr ?_
      rw [hs]
      exact ⟨long, Nat.not_lt.mpr hlt, unwritten_abort ..⟩

end Config.Ripens

end Rehearsal
