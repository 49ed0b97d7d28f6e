import Rehearsal.Proofs.Engine.Maturing

/-!
# What the interpretation of a tree makes of tasks that ripen

A call is answered at once or leaves a task with its output behind. A gather makes a placeholder for
each of its parts, one after the other, and when all have been looked at it is answered with what is
over, or waits for the rest. Which it is depends on the waits; what it comes to does not.
-/
namespace Rehearsal

variable {σ : Type} {begun : Nat → Prop} {val : Nat → Value} {n t g budget : Nat}
    {stack below : List Frame}
  {later : List Assembly} {w : World σ} {o : RunOptions} {outcome : Value}
  {m : Machine σ} {control : Control}

theorem Grounded.runners_eq (h : Grounded stack) : runners stack = [] := by
  cases h <;> rfl

@[simp] theorem Registry.size_create (r : Registry) (name : String)
    (wait : Wait) (parent : Option Nat)
    (detached : Bool) (coroutine : Option Coroutine) (entry : Option Entry) :
    (r.create name wait parent detached coroutine entry).1.size = r.size + 1 := by
  cases parent with
  | none => exact Array.size_push ..
  | some p => exact (Registry.size_modify ..).trans (Array.size_push ..)

/-- The frame of the task for which a part is interpreted is on top. -/
theorem Asking.exists_frame (h : Asking val n t stack later) :
    ∃ f below, stack = f :: below ∧ (f = .driving t ∨ f = .member t) ∧
    Between val n below later := by
  cases h with
  | root h => exact ⟨_, _, rfl, Or.inl rfl, .grounded h⟩
  | member _ forms h => exact ⟨_, _, rfl, Or.inr rfl, .composite forms h⟩

/-- What the only generator of a coroutine yields is interpreted next. Nothing but null is sent
before the start. -/
theorem Config.resume_yields {u : Task} {started : Bool} {v x : Value} {s : σ}
    (hu : m.registry.get? t = some u)
    (hco : u.coroutine = some ⟨[g], started⟩) (hv : started = true ∨ v = .null)
    (hs : w.resume m.view g (.send v) m.outer = (.yielded x, s)) :
    resume w m stack t (.send v) =
      ⟨m.holding t ⟨[g], true⟩ s, .driving t :: stack, .interpret t x false⟩ := by
  have hsignal : Coroutine.signalFor ⟨[g], started⟩ (.send v) = .send v := by
    rcases hv with rfl | rfl
    · rfl
    · exact ite_self _
  have hresumed : Coroutine.resume w m.view ⟨[g], started⟩ (.send v) m.outer =
      (.suspended x, ⟨[g], true⟩, s) := by
    unfold Coroutine.resume
    simp only [hsignal, Coroutine.advance, hs]
  unfold resume resumeSeeing
  rw [withCoroutine_eq hu hco, hresumed]
  rfl

/-- What its only generator returns completes a task. -/
theorem Config.resume_returns {u : Task} {v x : Value} {s : σ} (hu : m.registry.get? t = some u)
    (hco : u.coroutine = some ⟨[g], true⟩)
    (hs : w.resume m.view g (.send v) m.outer = (.returned x, s)) :
    resume w m stack t (.send v) =
      ⟨(m.holding t ⟨[], true⟩ s).modify t fun task => { task with running := false },
        stack, .complete t x⟩ := by
  have hresumed : Coroutine.resume w m.view ⟨[g], true⟩ (.send v) m.outer =
      (.finished x, ⟨[], true⟩, s) := by
    simp only [Coroutine.resume, Coroutine.signalFor, Coroutine.advance,
      if_true, hs, List.isEmpty_nil]
  unfold resume resumeSeeing
  rw [withCoroutine_eq hu hco, hresumed]
  rfl

/-- The root is driven first, alone, with its coroutine not started. -/
theorem Config.step_launched (w : World σ) (o : RunOptions) (outer : σ) (name : String) (g : Nat) :
    ∃ m : Machine σ, (launched outer name g).step w o =
      resume w m [.batch [], .loop 0] 0 (.send .null) ∧
      (∃ u, m.registry.get? 0 = some u ∧ u.coroutine = some (.ofGenerator g) ∧ u.done = false ∧
        u.error = none) ∧
      m.registry.size = 1 ∧ m.registry.pending = [0] ∧ m.registry.finished = [] ∧ m.steps = 0 ∧
      m.outer = outer := by
  refine ⟨(launched outer name g).machine.modify 0 fun task => { task with running := true }, rfl,
    ⟨_, Registry.get?_modify_of_eq_some _
      (Registry.Forest.get?_create_new (r := Registry.empty) name .now none
      false (some (.ofGenerator g)) none nofun), rfl, rfl, rfl⟩,
      (Registry.size_modify ..).trans rfl, rfl, rfl, rfl,
    rfl⟩

namespace Config.Ripens

/-! ### Answers -/

/-- A task whose part cannot be answered yet is blocked, with the promise that it waits for. -/
theorem step_blocking {i : Interruption}
    (h : Ripens w g outcome budget val later ⟨m, stack, .answer (.block i)⟩)
    (hc : Config.Sound begun ⟨m, stack, .answer (.block i)⟩)
    (hasking : Asking val m.registry.size t stack later)
    (promises : i.Promises val m.registry.size (val t)) :
    (step w o ⟨m, stack, .answer (.block i)⟩).Ripens w g outcome budget val later := by
  obtain ⟨f, below, rfl, hf, between⟩ := hasking.exists_frame
  have hrunner : f.runner? = some t := by rcases hf with rfl | rfl <;> rfl
  have hs : step w o ⟨m, f :: below, .answer (.block i)⟩ =
      halt ((m.modify t fun task => { task with running := false }).suspend o t i) below := by
    rcases hf with rfl | rfl <;> rfl
  have hruns : Drives (⟨m, f :: below, .answer (.block i)⟩ : Config σ) t :=
    Or.inl (List.mem_filterMap.mpr ⟨f, List.mem_cons_self .., hrunner⟩)
  rw [hs]
  refine h.carry hc hs id (Machine.steps_suspend ..) (Machine.outer_suspend ..)
    (.resting between) ?_ ?_
    False.elim
  · intro x hx
    have hne : t ≠ x := fun he => hx (hrunner.trans (congrArg some he))
    simp [Drives, halt, runners, hrunner, Ne.symm hne]
  · intro x u u' hx hu hu'
    obtain rfl : t = x := Option.some.inj (hrunner.symm.trans hx)
    have hco := h.driven t u hu hruns
    have hu₁ := Registry.get?_modify_of_eq_some (·.block i)
      (Registry.get?_modify_of_eq_some (fun task : Task => { task with running := false }) hu)
    simp only [halt, Machine.registry_suspend] at hu'
    obtain rfl := Option.some.inj (hu₁.symm.trans hu')
    exact ⟨Or.inl rfl, fun _ => hco, Or.inr (Or.inr (.blocked rfl promises fun _ => hco))⟩

/-- A placeholder whose part has its value is completed with it. -/
theorem step_member {p : Nat}
    (h : Ripens w g outcome budget val later ⟨m, .member p :: below, .answer (.advance (val p))⟩)
    (hc : Config.Sound begun ⟨m, .member p :: below, .answer (.advance (val p))⟩)
    (between : Between val m.registry.size below later) :
    (step w o ⟨m, .member p :: below, .answer (.advance (val p))⟩).Ripens w g outcome
      budget val later := by
  have hs : step w o ⟨m, .member p :: below, .answer (.advance (val p))⟩ =
      ⟨m.modify p fun task => { task with running := false }, below, .complete p (val p)⟩ := rfl
  rw [hs]
  refine h.carry hc hs id rfl rfl (.returning p between) ?_ ?_ False.elim
  · intro x hx
    have hne : p ≠ x := fun he => hx (congrArg some he)
    simp [Drives, runners, Frame.runner?, Ne.symm hne]
  · rintro x u u' ⟨⟩ hu hu'
    obtain rfl := Option.some.inj ((Registry.get?_modify_of_eq_some _ hu).symm.trans hu')
    exact ⟨Or.inl rfl, fun _ => h.driven p u hu (Or.inl (List.mem_cons_self ..)),
      Or.inr (Or.inl ⟨_, rfl⟩)⟩

/-- A generator that echoes ends its coroutine with what it is sent. -/
theorem resume_echo {u : Task} (hu : m.registry.get? t = some u)
    (hco : u.coroutine = some ⟨[g], true⟩)
    (echoes : w.Echoes g m.outer) (v : Value) :
    ∃ s, resume w m stack t (.send v) =
      ⟨(m.holding t ⟨[], true⟩ s).modify t fun task => { task with running := false },
        stack, .complete t v⟩ := by
  obtain ⟨s, hs⟩ := echoes m.view v
  exact ⟨s, resume_returns hu hco hs⟩

/-- The saga is sent what the tree comes to, and returns it. -/
theorem step_answering (h : Ripens w g outcome budget val [] ⟨m, stack, control⟩)
    (hc : Config.Sound begun ⟨m, stack, control⟩) (hg : Grounded below)
    (hcontrol : (stack = .driving 0 :: below ∧ control = .answer (.advance (val 0))) ∨
      (stack = below ∧ control = .drive 0 (.send (val 0)))) :
    (step w o ⟨m, stack, control⟩).Ripens w g outcome budget val [] := by
  obtain ⟨u, hu⟩ := Registry.exists_of_lt h.root.1
  have hdrives : ∀ x, Drives (⟨m, stack, control⟩ : Config σ) x ↔ x = 0 := by
    rcases hcontrol with ⟨rfl, rfl⟩ | ⟨rfl, rfl⟩ <;> intro x <;>
      simp [Drives, hg.runners_eq, eq_comm]
  have hworks : ∀ x, (footprint (⟨m, stack, control⟩ : Config σ)).works x ↔ x = 0 := by
    rcases hcontrol with ⟨rfl, rfl⟩ | ⟨rfl, rfl⟩ <;> intro x <;>
      simp [footprint, Frame.runner?, eq_comm]
  have hco := h.driven 0 u hu ((hdrives 0).mpr rfl)
  obtain ⟨m₁, u₁, hu₁, hco₁, hsteps, houter, hstep⟩ : ∃ m₁ u₁, m₁.registry.get? 0 = some u₁ ∧
      u₁.coroutine = u.coroutine ∧ m₁.steps = m.steps ∧ m₁.outer = m.outer ∧
      step w o ⟨m, stack, control⟩ = resume w m₁ below 0 (.send (val 0)) := by
    rcases hcontrol with ⟨rfl, rfl⟩ | ⟨rfl, rfl⟩
    · exact ⟨m, u, hu, rfl, rfl, rfl, rfl⟩
    · exact ⟨m.modify 0 fun task => { task with running := true }, _,
        Registry.get?_modify_of_eq_some _ hu, rfl,
        rfl, rfl, rfl⟩
  have hechoes : w.Echoes g m₁.outer := houter ▸ h.heard u hu hco
  obtain ⟨s, hs⟩ : ∃ s, resume w m₁ below 0 (.send (val 0)) = _ :=
    resume_echo hu₁ (hco₁.trans hco) hechoes (val 0)
  rw [← hstep] at hs
  have hu' : ((m₁.holding 0 ⟨[], true⟩ s).modify 0 fun task => { task with running :=
      false }).registry.get? 0 =
      some { u₁ with coroutine := some ⟨[], true⟩, running := false } :=
    Registry.get?_modify_of_eq_some _ (Machine.get?_holding hu₁ _ s)
  have hidle : ∀ x, ¬ Drives
      (⟨(m₁.holding 0 ⟨[], true⟩ s).modify 0 fun task => { task with running := false }, below,
        .complete 0 (val 0)⟩ : Config σ) x := by
    simp [Drives, hg.runners_eq]
  rw [hs]
  refine h.next_of_not_makes hc hs ?_ hsteps (.returning 0 (.grounded hg)) ?_ ?_ ?_ ?_
  · rcases hcontrol with ⟨rfl, rfl⟩ | ⟨rfl, rfl⟩ <;> exact id
  · exact fun x hx => iff_of_false (hidle x) fun hd => hx ((hworks x).mpr ((hdrives x).mp hd))
  · rintro x v v' hx _ _
    obtain rfl := (hworks x).mp hx
    exact ⟨fun hd => (hidle 0 hd).elim, Or.inr (Or.inl ⟨_, rfl⟩)⟩
  · intro v hv hco
    obtain rfl := Option.some.inj (hu'.symm.trans hv)
    cases hco
  · rcases hcontrol with ⟨rfl, rfl⟩ | ⟨rfl, rfl⟩ <;> exact False.elim

/-! ### Gathers -/

variable {c : Config σ} {steps : Nat} {k : Composite} {before : List Assembly}

/-- No member has failed. -/
theorem firstError?_eq_none (h : c.Ripens w g outcome budget val before) (steps : Nat)
    (members : List Nat) :
    ({ c.machine with steps } : Machine σ).firstError? members = none := by
  refine List.findSome?_eq_none_iff.mpr fun p _ => ?_
  show (c.machine.registry.get? p).bind Task.error = none
  cases hu : c.machine.registry.get? p with
  | none => rfl
  | some u => exact h.errorless p u hu

/-- When all its members have been looked at, a gather is answered, or waits for the rest. -/
theorem concluding (h : c.Ripens w g outcome budget val before) (hc : c.Sound begun)
    (hs : c.step w o = ofOutcome below (({ c.machine with steps } : Machine σ).concludeComposite k))
    (forms : k.Forms val c.machine.registry.size [])
    (hasking : Asking val c.machine.registry.size k.task below later)
    (hworks : ∀ x, ¬ c.footprint.works x) (hdrives : ∀ x, c.Drives x ↔ x ∈ runners below)
    (hcalls : before.flatMap Assembly.calls = later.flatMap Assembly.calls)
    (hcost :
      steps + c.machine.registry.pending.length + 3 * (later.map Assembly.size).sum ≤ budget) :
    (c.step w o).Ripens w g outcome budget val later := by
  have settled := forms.promises.settle (h.fulfils hc)
  have hanswer : ∃ a, c.step w o = ⟨{ c.machine with steps }, below, .answer a⟩ ∧
      Accords val c.machine.registry.size below (.answer a) later := by
    rw [Machine.concludeComposite_eq, h.firstError?_eq_none] at hs
    simp only [forms.gather, Bool.false_and, Bool.false_eq_true, if_false] at hs
    split at hs
    · rename_i hnil
      refine ⟨_, hs, ?_⟩
      rw [settled.unwrap_eq (List.isEmpty_iff.mp hnil)]
      exact .advancing hasking
    · exact ⟨_, hs, .blocking hasking (.gather rfl settled nofun)⟩
  obtain ⟨a, hs, haccords⟩ := hanswer
  rw [hs]
  refine h.next hs (fun _ _ => rfl) haccords ?_ ?_ ?_ (Nat.le_succ_of_le hcost) fun _ => hcost
  · intro x _
    rw [hdrives]
    simp [Drives]
  · intro x u hw hu
    exact (hw.elim (hworks x) (Nat.not_le_of_lt (Registry.get?_eq_some_lt hu))).elim
  · intro u hu hco
    rw [← hcalls]
    exact h.heard u hu hco

/-- The next member of a gather is interpreted, for a placeholder of its own. -/
theorem making {key : Value} {part : Assembly} {parts : List (Value × Assembly)}
    (h : c.Ripens w g outcome budget val before)
    (hs : c.step w o = ofOutcome below (({ c.machine with steps } : Machine σ).continueComposite k))
    (forms : k.Forms val c.machine.registry.size ((key, part) :: parts))
    (hasking : Asking val c.machine.registry.size k.task below later)
    (hworks : ∀ x, ¬ c.footprint.works x) (hdrives : ∀ x, c.Drives x ↔ x ∈ runners below)
    (hcalls : before.flatMap Assembly.calls =
      (part :: parts.map (·.2) ++ later).flatMap Assembly.calls)
    (hcost : steps + c.machine.registry.pending.length +
      3 * ((part :: parts.map (·.2) ++ later).map Assembly.size).sum ≤ budget) :
    (c.step w o).Ripens w g outcome budget (Function.update val c.machine.registry.size part.value)
      (part :: parts.map (·.2) ++ later) := by
  have hrest : k.rest = (key, part.effect) :: parts.map fun e => (e.1, e.2.effect) := forms.rest
  have hlt : ∀ p, some k.task = some p → p < c.machine.registry.size := by
    rintro p ⟨⟩
    exact forms.task_lt
  obtain ⟨name, hs'⟩ : ∃ name, c.step w o =
      ⟨{ c.machine with
          steps
          registry :=
            (c.machine.registry.create name (.tier .all) (some k.task) false none none).1.modify
            c.machine.registry.size fun task => { task with running := true } },
        .member c.machine.registry.size :: .composite { k with
          made := k.made ++ [(key, c.machine.registry.size)], rest :=
            parts.map fun e => (e.1, e.2.effect) } ::
          below,
        .interpret c.machine.registry.size part.effect true⟩ := by
    rw [hs]
    unfold Machine.continueComposite
    simp only [hrest, forms.gather, Bool.false_eq_true, if_false]
    exact ⟨_, rfl⟩
  have hval : ∀ d < c.machine.registry.size,
      Function.update val c.machine.registry.size part.value d = val d :=
    fun d hd => Function.update_of_ne (Nat.ne_of_lt hd) ..
  have hsize : ((c.machine.registry.create name (.tier .all) (some k.task) false none none).1.modify
      c.machine.registry.size fun task => { task with running := true }).size =
        c.machine.registry.size + 1 := by
    rw [Registry.size_modify, Registry.size_create]
  have hnew := Registry.get?_modify_of_eq_some (fun task : Task => { task with running := true })
    (Registry.Forest.get?_create_new (r := c.machine.registry) name (.tier .all)
      (some k.task) false none none hlt)
  rw [hs']
  refine h.next hs' hval ?_ ?_ ?_ ?_ ?_ fun hn => (hn trivial).elim
  · show Accords _ (Registry.size _) _ _ _
    rw [hsize]
    exact .asking (.member (Nat.lt_succ_self _) forms.next (hasking.mono (Nat.le_succ _) hval))
      (Function.update_self ..) true
  · intro x hx
    have hne : x ≠ c.machine.registry.size := fun he => hx (Or.inr (Nat.le_of_eq he.symm))
    rw [hdrives]
    simp [Drives, hne]
  · intro x u hw hu
    have hlt := hsize ▸ Registry.get?_eq_some_lt hu
    obtain rfl : x = c.machine.registry.size :=
      Nat.le_antisymm (Nat.le_of_lt_succ hlt) (hw.resolve_left (hworks x))
    obtain rfl := Option.some.inj (hnew.symm.trans hu)
    refine ⟨fun _ => ?_, Or.inl (Or.inl (List.mem_cons_self ..))⟩
    exact (if_neg (Nat.ne_of_gt h.root.1)).symm
  · intro u hu hco
    obtain ⟨u₀, hu₀, he⟩ := h.root_unworked hs' (hworks 0) hu
    have hplans := h.heard u₀ hu₀ (he ▸ hco)
    rw [hcalls] at hplans
    exact hplans
  · show steps + (Registry.pending _).length + _ ≤ budget + 1
    rw [Registry.pending_modify, Registry.pending_create, List.length_append, List.length_singleton]
    omega

/-- **A gather goes on**: its next member is interpreted, or it is concluded. -/
theorem gathering {parts : List (Value × Assembly)}
    (h : c.Ripens w g outcome budget val before) (hc : c.Sound begun)
    (hs : c.step w o = ofOutcome below (({ c.machine with steps } : Machine σ).continueComposite k))
    (forms : k.Forms val c.machine.registry.size parts)
    (hasking : Asking val c.machine.registry.size k.task below later)
    (hworks : ∀ x, ¬ c.footprint.works x) (hdrives : ∀ x, c.Drives x ↔ x ∈ runners below)
    (hcalls : before.flatMap Assembly.calls = (parts.map (·.2) ++ later).flatMap Assembly.calls)
    (hcost : steps + c.machine.registry.pending.length +
      3 * ((parts.map (·.2) ++ later).map Assembly.size).sum ≤ budget) :
    ∃ val' later', (∀ d < c.machine.registry.size, val' d = val d) ∧
      (c.step w o).Ripens w g outcome budget val' later' := by
  cases parts with
  | nil =>
    refine ⟨_, _, fun _ _ => rfl,
      h.concluding hc (hs.trans ?_) forms hasking hworks hdrives hcalls hcost⟩
    unfold Machine.continueComposite
    rw [show k.rest = [] from forms.rest]
  | cons e parts =>
    exact ⟨_, _, fun d hd => Function.update_of_ne (Nat.ne_of_lt hd) ..,
      h.making hs forms hasking hworks hdrives hcalls hcost⟩

/-! ### Interpretations -/

/-- While a part is interpreted the planner is ready for what is still to be asked for. -/
theorem plans_of_asking (h : c.Ripens w g outcome budget val later)
    (hasking : Asking val c.machine.registry.size t c.stack before) :
    w.Plans (w.Echoes g) (later.flatMap Assembly.calls) c.machine.outer := by
  obtain ⟨u, hu⟩ := Registry.exists_of_lt h.root.1
  exact h.heard u hu (h.driven 0 u hu (Or.inl hasking.root_runs))

/-- A call that need not wait is answered at once. -/
theorem step_call_now {b : Bool} {call : Call} {v : Value} {plain : ∀ g, v ≠ .generator g} {s : σ}
    (h : Ripens w g outcome budget val (.call call v plain :: later)
      ⟨m, stack, .interpret t (Assembly.call call v plain).effect b⟩)
    (hasking : Asking val m.registry.size t stack later) (hvalue : val t = v)
    (hs : step w o ⟨m, stack, .interpret t (Assembly.call call v plain).effect b⟩ =
      ⟨{ m with steps := m.steps + 1, outer := s }, stack, .answer (.advance v)⟩)
    (hplans : w.Plans (w.Echoes g) (later.flatMap Assembly.calls) s)
    (hcost :
      m.steps + m.registry.pending.length + 3 + 3 * (later.map Assembly.size).sum ≤ budget + 1) :
    (step w o ⟨m, stack, .interpret t (Assembly.call call v plain).effect b⟩).Ripens
      w g outcome budget val
      later := by
  have hspent :
      m.steps + 1 + m.registry.pending.length + 3 * (later.map Assembly.size).sum ≤ budget := by
    omega
  rw [hs]
  refine h.next hs (fun _ _ => rfl) (hvalue ▸ .advancing hasking) ?_ ?_ (fun _ _ _ => hplans)
    (Nat.le_succ_of_le hspent) fun _ => hspent
  · intro x _
    simp [Drives]
  · intro x u hw hu
    exact (hw.elim id (Nat.not_le_of_lt (Registry.get?_eq_some_lt hu))).elim

/-- A call that has to wait is left for later, and its task waits for it. -/
theorem step_call_later {b : Bool} {call : Call} {v : Value}
    {plain : ∀ g, v ≠ .generator g} {wait : Wait}
    {s : σ}
    (h : Ripens w g outcome budget val (.call call v plain :: later)
      ⟨m, stack, .interpret t (Assembly.call call v plain).effect b⟩)
    (hasking : Asking val m.registry.size t stack later) (hvalue : val t = v)
    (hs : step w o ⟨m, stack, .interpret t (Assembly.call call v plain).effect b⟩ =
      ⟨{ m with
          registry := (m.registry.create call.name wait (some t) false none
            (some (.planned ⟨false, v, none, wait⟩ call))).1
          steps := m.steps + 1
          outer := s }, stack, .answer (.block (.onChild m.registry.size))⟩)
    (hplans : w.Plans (w.Echoes g) (later.flatMap Assembly.calls) s)
    (hcost :
      m.steps + m.registry.pending.length + 3 + 3 * (later.map Assembly.size).sum ≤ budget + 1) :
    (step w o ⟨m, stack, .interpret t (Assembly.call call v plain).effect b⟩).Ripens w g outcome
      budget
      (Function.update val m.registry.size v) later := by
  have hlt := hasking.task_lt h.root.1
  have hval : ∀ d < m.registry.size, Function.update val m.registry.size v d = val d :=
    fun d hd => Function.update_of_ne (Nat.ne_of_lt hd) ..
  have hparent : ∀ p, some t = some p → p < m.registry.size := by
    rintro p ⟨⟩
    exact hlt
  have hnew := Registry.Forest.get?_create_new (r := m.registry) call.name wait (some t) false none
    (some (.planned ⟨false, v, none, wait⟩ call)) hparent
  have hspent : m.steps + 1 + (m.registry.create call.name wait (some t) false none
      (some (.planned ⟨false, v, none, wait⟩ call))).1.pending.length + 3 *
        (later.map Assembly.size).sum ≤
      budget := by
    rw [Registry.pending_create, List.length_append, List.length_singleton]
    omega
  have haccords : Accords (Function.update val m.registry.size v) (m.registry.size + 1) stack
      (.answer (.block (.onChild m.registry.size))) later := by
    refine .blocking (hasking.mono (Nat.le_succ _) hval)
      (.child rfl rfl (Nat.lt_succ_self _) ?_ nofun)
    rw [Function.update_self, hval t hlt, hvalue]
  rw [hs]
  refine h.next hs hval ?_ ?_ ?_ (fun _ _ _ => hplans) (Nat.le_succ_of_le hspent) fun _ => hspent
  · exact (Registry.size_create ..).symm ▸ haccords
  · intro x _
    simp [Drives]
  · intro x u hw hu
    have hx : x < m.registry.size + 1 := Registry.size_create .. ▸ Registry.get?_eq_some_lt hu
    obtain rfl : x = m.registry.size := Nat.le_antisymm (Nat.le_of_lt_succ hx) (hw.resolve_left id)
    obtain rfl := Option.some.inj (hnew.symm.trans hu)
    have hentry : (Task.fresh m.registry.size call.name wait (some t) false none
        (some (.planned ⟨false, v, none, wait⟩ call))).entry =
        some (.planned
          ⟨false, Function.update val m.registry.size v m.registry.size, none, wait⟩ call) := by
      rw [Function.update_self]
      rfl
    refine ⟨fun _ => (if_neg (Nat.ne_of_gt h.root.1)).symm,
      Or.inr (Or.inr (.planned rfl rfl hentry ?_))⟩
    rw [Function.update_self]
    exact plain

/-- **A part of the tree is interpreted**, and what its task comes to is what the part comes to. -/
theorem step_asking {part : Assembly} {b : Bool}
    (h : Ripens w g outcome budget val (part :: later) ⟨m, stack, .interpret t part.effect b⟩)
    (hc : Config.Sound begun ⟨m, stack, .interpret t part.effect b⟩) (hlimit : budget ≤ o.stepLimit)
    (hasking : Asking val m.registry.size t stack later) (hvalue : val t = part.value) :
    ∃ val' later', (∀ d < m.registry.size, val' d = val d) ∧
      (step w o ⟨m, stack, .interpret t part.effect b⟩).Ripens w g outcome budget val' later' := by
  have hspent :
      m.steps + m.registry.pending.length + 3 * (part.size + (later.map Assembly.size).sum) ≤
      budget + 1 := by
    have hcost := h.spent
    rwa [cost, List.map_cons, List.sum_cons] at hcost
  have hpos := part.size_pos
  have hinterpret : ∀ e, m.interpret w o t (.effect e) b = m.counted.interpretEffect w t e b := by
    intro e
    unfold Machine.interpret
    rw [Machine.tick_of_lt m (o := o) (by omega)]
  have hplans := h.plans_of_asking hasking
  rcases part.call_or_gather with ⟨call, v, plain, rfl⟩ | ⟨members, heffect, hitems,
    hcomes, hcalls, hsize⟩
  · rw [Assembly.value_call] at hvalue
    rw [List.flatMap_cons, Assembly.calls_call] at hplans
    obtain ⟨wait, s, hplan, hplans⟩ := hplans m.counted.view
    change w.plan m.counted.view call false m.counted.outer = _ at hplan
    have hcost : m.steps + m.registry.pending.length + 3 + 3 * (later.map Assembly.size).sum ≤
        budget + 1 := by
      omega
    have hs : step w o ⟨m, stack, .interpret t (Assembly.call call v plain).effect b⟩ =
        ofOutcome stack (m.counted.interpretCall w t call) := by
      show ofOutcome stack (m.interpret w o t _ b) = _
      rw [Assembly.effect_call, hinterpret]
      rfl
    unfold Machine.interpretCall at hs
    simp only [hplan] at hs
    by_cases hnow : wait = .now
    · rw [if_pos hnow] at hs
      refine ⟨_, _, fun _ _ => rfl, h.step_call_now hasking hvalue (hs.trans ?_) hplans hcost⟩
      cases v with
      | generator g => exact (plain g rfl).elim
      | _ => rfl
    · rw [if_neg hnow, Machine.create_eq] at hs
      exact ⟨_, _, fun d hd => Function.update_of_ne (Nat.ne_of_lt hd) ..,
        h.step_call_later hasking hvalue hs hplans hcost⟩
  · have forms : Composite.Forms val m.registry.size
        ⟨t, false, Machine.isKeyed members, [], Machine.memberItems members⟩ part.items :=
      ⟨rfl, hasking.task_lt h.root.1, fun _ he => (List.not_mem_nil he).elim,
        hitems, hvalue.trans hcomes⟩
    have hs : step w o ⟨m, stack, .interpret t part.effect b⟩ =
        ofOutcome stack (m.counted.interpretComposite t false members) := by
      show ofOutcome stack (m.interpret w o t _ b) = _
      rw [heffect, hinterpret]
      rfl
    refine h.gathering hc hs forms hasking (fun _ => id) ?_ ?_ ?_
    · intro x
      simp [Drives]
    · rw [List.flatMap_cons, hcalls, List.flatMap_append]
    · rw [List.map_append, List.sum_append]
      show m.steps + 1 + m.registry.pending.length + _ ≤ budget
      omega

/-- **Every step keeps to what was said.** -/
theorem step {c : Config σ} (h : c.Ripens w g outcome budget val later) (hc : c.Sound begun)
    (hlimit : budget ≤ o.stepLimit) (hf : c.isFinal = false) :
    (∃ val' later', (∀ d < c.machine.registry.size, val' d = val d) ∧
      (c.step w o).Ripens w g outcome budget val' later') ∨ (c.step w o).Untraced o := by
  have kept : ∀ {later'}, (c.step w o).Ripens w g outcome budget val later' →
      ∃ val' later', (∀ d < c.machine.registry.size, val' d = val d) ∧
        (c.step w o).Ripens w g outcome budget val' later' := fun h => ⟨val, _, fun _ _ => rfl, h⟩
  obtain ⟨m, stack, control⟩ := c
  have haccords : Accords val m.registry.size stack control later := h.accords
  cases haccords with
  | settled => cases hf
  | looking => exact (h.step_looking hc hlimit).imp_left kept
  | bubbling ids => exact (h.step_bubbling hc hlimit).imp_left kept
  | asking hasking value b => exact .inl (h.step_asking hc hlimit hasking value)
  | blocking hasking promises => exact .inl (kept (h.step_blocking hc hasking promises))
  | returning t between => exact .inl (kept (h.step_returning hc between))
  | picking t hg => exact .inl (kept (h.step_picking hc hg))
  | starting t hg => exact .inl (kept (h.step_starting hc hg))
  | resuming hg => exact .inl (kept (h.step_answering hc hg (Or.inr ⟨rfl, rfl⟩)))
  | advancing hasking =>
    cases hasking with
    | root hg => exact .inl (kept (h.step_answering hc hg (Or.inl ⟨rfl, rfl⟩)))
    | member lt forms hasking => exact .inl (kept (h.step_member hc (.composite forms hasking)))
  | resting between =>
    cases between with
    | grounded hg =>
      cases hg with
      | batch rest =>
        cases rest with
        | nil => exact .inl (kept (h.reaped hc (Or.inl rfl)))
        | cons t rest => exact .inl (kept (h.step_batch hc))
      | round ids rest =>
        cases rest with
        | nil => exact .inl (kept (h.reaped hc (Or.inr ⟨ids, rfl⟩)))
        | cons t rest => exact .inl (kept (h.step_round hc))
    | composite forms hasking =>
      refine .inl (h.gathering hc rfl forms hasking (fun _ => id) ?_ rfl (h.solvent id))
      intro x
      simp [Drives]

end Config.Ripens

end Rehearsal
