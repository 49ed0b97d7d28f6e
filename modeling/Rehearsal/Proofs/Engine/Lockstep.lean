import Rehearsal.Proofs.Engine.Recording
import Rehearsal.Proofs.Engine.Retiming

/-!
# Ticks count by their order only

Where `f` is strictly increasing, the code around the scheduler does not look at wait states and no
tick is too long to be written, the retiming scheduler goes through the same configurations as the
one that leaves ticks alone, step by step. The next batch is the only thing that ticks have a say
in, and it is the same.
-/
namespace Rehearsal

variable {σ : Type} {f : Nat → Nat}

namespace Config

variable {m m' : Machine σ} {w : World σ} {o : RunOptions}

namespace Retimed

theorem halt (h : m.Retimed f m') (stack : List Frame) :
    (Config.halt m stack).Retimed f (Config.halt m' stack) :=
  ⟨h, rfl, .same _⟩

theorem ofOutcome {r r' : Outcome σ} (h : r.Retimed f r') (stack : List Frame) :
    (Config.ofOutcome stack r).Retimed f (Config.ofOutcome stack r') :=
  ⟨h.machine, congrArg (· ++ stack) h.frames, h.control⟩

theorem settled {c c' : Config σ} (h : c.Retimed f c') {first : Nat}
    (hsize : c'.machine.registry.size ≤ first) : c.Retimed f (c'.retimeFrom f first) :=
  ⟨h.machine.settled hsize, h.stack, h.control⟩

end Retimed

theorem afterProgress_retimed (h : m.Retimed f m') (stack : List Frame) (t : Nat) (p : Progress) :
    (afterProgress m stack t p).Retimed f (afterProgress m' stack t p) := by
  have hstop := h.modify t (g := fun u => { u with running := false }) fun _ => rfl
  cases p with
  | suspended effect => exact ⟨h, rfl, .same _⟩
  | finished v => exact ⟨hstop, rfl, .same _⟩
  | raised e =>
    unfold afterProgress
    dsimp only
    split
    · exact ⟨hstop, rfl, .same _⟩
    · exact ⟨h, rfl, .same _⟩

theorem withCoroutine_retimed (h : m.Retimed f m') (stack : List Frame) (t : Nat)
    (go : Coroutine → σ → Progress × Coroutine × σ) :
    (withCoroutine m stack t go).Retimed f (withCoroutine m' stack t go) := by
  have hco : (m'.get? t).bind (·.coroutine) = (m.get? t).bind (·.coroutine) := by
    rw [h.get?]
    cases m.get? t <;> rfl
  unfold withCoroutine
  rw [hco, h.outer]
  split
  · rw [h.exception]
    exact ⟨h.modify t fun _ => rfl, rfl, .same _⟩
  · rename_i c _
    generalize go c m.outer = went
    obtain ⟨p, c', s⟩ := went
    exact afterProgress_retimed
      ((h.withOuter s).modify t (g := fun u => { u with coroutine := some c' }) fun _ => rfl) stack
        t p

theorem resumeSeeing_retimed (h : m.Retimed f m') (hw : w.Timeless) {v v' : View}
    (hv : v'.untimed = v.untimed) (stack : List Frame) (t : Nat) (signal : Signal) :
    (resumeSeeing w v m stack t signal).Retimed f (resumeSeeing w v' m' stack t signal) := by
  have hgo : (fun (c : Coroutine) s => c.resume w v' signal s) =
      fun c s => c.resume w v signal s := by
    funext c s
    unfold Coroutine.resume
    rw [hw.resume hv, show v'.steps = v.steps from congrArg (·.steps) hv]
  unfold resumeSeeing
  rw [hgo]
  exact withCoroutine_retimed h stack t _

theorem resume_retimed (h : m.Retimed f m') (hw : w.Timeless) (stack : List Frame) (t : Nat)
    (signal : Signal) : (resume w m stack t signal).Retimed f (resume w m' stack t signal) :=
  resumeSeeing_retimed h hw h.view stack t signal

theorem enter_retimed (h : m.Retimed f m') (hw : w.Timeless) (stack : List Frame) (t g : Nat) :
    (enter w m stack t g).Retimed f (enter w m' stack t g) := by
  have hgo : (fun (c : Coroutine) s => c.enter w m'.view g s) = fun c s =>
      c.enter w m.view g s := by
    funext c s
    unfold Coroutine.enter
    rw [hw.resume h.view, show m'.view.steps = m.view.steps from h.steps]
  unfold enter
  rw [hgo]
  exact withCoroutine_retimed h stack t _

theorem drive_retimed (h : m.Retimed f m') (hw : w.Timeless) (stack : List Frame)
    (t : Nat) (signal : Signal) :
    (drive w m stack t signal).Retimed f (drive w m' stack t signal) :=
  resume_retimed
    (h.modify t (g := fun u => { u with running := true }) fun _ => rfl) hw stack t signal

theorem deliver_retimed (h : m.Retimed f m') (hw : w.Timeless) (a : Answer) (stack : List Frame) :
    (deliver w o m a stack).Retimed f (deliver w o m' a stack) := by
  have hstop : ∀ t, (m.modify t fun u => { u with running := false }).Retimed f
      (m'.modify t fun u => { u with running := false }) := fun t => h.modify t fun _ => rfl
  unfold deliver
  split
  · cases a with
    | advance v => exact resume_retimed h hw _ _ _
    | enter g => exact enter_retimed h hw _ _ _
    | block i => exact .halt ((hstop _).suspend _ i) _
  · cases a with
    | advance v => exact ⟨hstop _, rfl, .same _⟩
    | enter g => exact ⟨(hstop _).modify _ fun _ => rfl, rfl, .same _⟩
    | block i => exact .halt ((hstop _).suspend _ i) _
  · exact .halt h _

theorem catchException_retimed (h : m.Retimed f m') (hw : w.Timeless) (e : Exn)
    (stack : List Frame) :
    (catchException w m e stack).Retimed f (catchException w m' e stack) := by
  unfold catchException
  split
  · exact resumeSeeing_retimed h hw (congrArg ({ · with handled := some e }) h.view) _ _ _
  · exact ⟨h.modify _ fun _ => rfl, rfl, .same _⟩
  · exact ⟨h, rfl, .same _⟩
  · exact ⟨h, rfl, .same _⟩

theorem unwind_retimed (h : m.Retimed f m') {x x' : Failure} (hx : x.Retimed f x')
    (stack : List Frame) :
    (unwind m x stack).Retimed f (unwind m' x' stack) := by
  cases stack with
  | nil => exact ⟨h, rfl, .abort hx⟩
  | cons frame stack =>
    cases frame with
    | driving t => exact ⟨h.modify t fun _ => rfl, rfl, .abort hx⟩
    | _ => exact ⟨h, rfl, .abort hx⟩

theorem complete_retimed (h : m.Retimed f m') (stack : List Frame) (t : Nat) (v : Value) :
    (halt (m.complete o t v) stack).Retimed f (halt (m'.complete o t v) stack) :=
  .halt (h.wrapUp t (.returned v) v) stack

theorem afterEntry_retimed (h : m.Retimed f m') (stack : List Frame) (t : Nat)
    (produced : Except Exn Value) :
    (afterEntry o m stack t produced).Retimed f (afterEntry o m' stack t produced) := by
  unfold afterEntry
  split
  · exact ⟨h.modify t fun _ => rfl, rfl, .same _⟩
  · exact complete_retimed h stack t _
  · rename_i e
    split
    · refine ⟨?_, rfl, .same _⟩
      unfold handling
      split
      · exact h
      · exact h.withHandled (some e)
    · exact ⟨h, rfl, .same _⟩

theorem start_retimed (h : m.Retimed f m') (hw : w.Timeless) (stack : List Frame) (t : Nat) :
    (start w o m stack t).Retimed f (start w o m' stack t) := by
  have hopen := h.modify t (g := fun u => { u with entry := none }) fun _ => rfl
  cases ht : m.get? t with
  | none =>
    unfold start
    rw [h.get?, ht, h.unknownTask]
    exact ⟨h, rfl, .same _⟩
  | some u =>
    have ht' : m'.get? t = some (u.retime f) := by rw [h.get?, ht]; rfl
    cases he : u.entry with
    | none =>
      unfold start
      rw [ht, ht']
      simp only [he, show (u.retime f).entry = _ from he]
      exact complete_retimed hopen stack t u.result
    | some entry =>
      rw [start_eq w o ht he, start_eq w o ht' he]
      cases entry with
      | planned plan call =>
        obtain ⟨hmade, hmachine⟩ := hopen.produce hw plan call
        dsimp only
        rw [hmade]
        exact afterEntry_retimed hmachine stack t _
      | constant v => exact afterEntry_retimed hopen stack t (.ok v)

theorem runTask_retimed (h : m.Retimed f m') (stack : List Frame) (t : Nat) :
    (runTask m stack t).Retimed f (runTask m' stack t) := by
  have hclear := h.withHandled none
  have hfree := hclear.modify t (g := fun u => { u with interruption := none }) fun _ => rfl
  unfold runTask
  rw [h.get?, h.unknownTask]
  cases m.get? t with
  | none => exact ⟨h, rfl, .same _⟩
  | some u =>
    dsimp only [Option.map_some, Task.retime]
    split
    · exact ⟨hclear, rfl, .same _⟩
    · refine ⟨hclear, rfl, ?_⟩
      rw [show Machine.nothingToConsume _ t = _ from hclear.exception _ _]
      exact .same _
    · split
      · split
        · exact .halt (hfree.finalize t _) stack
        · exact .halt (hfree.finalize t _) stack
        · exact .halt hfree stack
      · split
        · exact ⟨hfree, rfl, .same _⟩
        · exact ⟨hfree, rfl, .same _⟩

theorem abandon_retimed (h : m.Retimed f m') (parent failed : Nat) :
    (abandon m' parent failed).1 = (abandon m parent failed).1 ∧
      (abandon m parent failed).2.Retimed f (abandon m' parent failed).2 := by
  have hfree := h.modify parent (g := fun u => { u with interruption := none }) fun _ => rfl
  have hawaits : (m'.get? parent).bind (·.interruption) =
      (m.get? parent).bind (·.interruption) := by
    rw [h.get?]
    cases m.get? parent <;> rfl
  unfold abandon
  rw [hawaits]
  split
  · exact ⟨rfl, h⟩
  · dsimp only
    split
    · exact ⟨rfl, hfree⟩
    · refine ⟨rfl, hfree.withRegistry ?_⟩
      rw [hfree.registry]
      refine List.foldl_hom (Registry.retime f) fun r other => ?_
      rw [Registry.get?_retime]
      cases r.get? other with
      | none => rfl
      | some u =>
        dsimp only [Option.map_some, Task.retime]
        split
        · exact Registry.letGo_retime r other
        · rfl

theorem propagate_retimed (h : m.Retimed f m') (stack : List Frame) (t : Nat) (e : Exn) :
    (propagate o m stack t e).Retimed f (propagate o m' stack t e) := by
  unfold propagate
  rw [h.get?, h.unknownTask]
  cases m.get? t with
  | none => exact ⟨h, rfl, .same _⟩
  | some u =>
    dsimp only [Option.map_some, Task.retime]
    split
    · split
      · exact .halt (h.note (.same _)) stack
      · rw [h.steps]
        exact ⟨h, rfl, .same _⟩
    · rename_i p _
      split
      · exact .halt h stack
      · rw [h.get?, h.unknownTask]
        cases m.get? p with
        | none => exact ⟨h, rfl, .same _⟩
        | some v =>
          dsimp only [Option.map_some, Task.retime]
          split
          · exact .halt h stack
          · obtain ⟨hdirect, hmachine⟩ := abandon_retimed h p t
            generalize abandon m p t = abandoned at hdirect hmachine
            generalize abandon m' p t = abandoned' at hdirect hmachine
            obtain ⟨direct, m₁⟩ := abandoned
            obtain ⟨direct', m₁'⟩ := abandoned'
            obtain rfl : direct' = direct := hdirect
            split
            · exact ⟨hmachine, rfl, .same _⟩
            · refine ⟨?_, rfl, .same _⟩
              cases direct' with
              | true => exact hmachine
              | false =>
                refine hmachine.withRegistry ?_
                rw [show m₁'.registry = _ from hmachine.registry, Registry.cancelAll_retime]

theorem bubble_retimed (h : m.Retimed f m') (brief : m.registry.Brief f) (stack : List Frame)
    (finished : List Nat) :
    (bubble o m stack finished).Retimed f (bubble o m' stack finished) := by
  unfold bubble
  split
  · exact .halt h stack
  · rw [h.registry, Registry.select_retime]
    have hnoted := h.noteBubbling (o := o) brief fun t (ht : t ∈ m.registry.select finished) =>
      brief.of_mem_select ht
    generalize m.noteBubbling o _ = noted at hnoted
    generalize m'.noteBubbling o _ = noted' at hnoted
    cases hnoted with
    | written hw =>
      have hpending := congrArg Registry.pending hw.registry
      exact ⟨hw, congrArg (Frame.round finished · :: stack) hpending, .same _⟩
    | refused x => exact ⟨h, rfl, .same _⟩

theorem continueRound_retimed (h : m.Retimed f m') (stack : List Frame) (finished rest : List Nat) :
    (continueRound m stack finished rest).Retimed f (continueRound m' stack finished rest) := by
  cases rest with
  | nil =>
    unfold continueRound
    rw [h.registry]
    exact ⟨h.withRegistry rfl, rfl, .same _⟩
  | cons t rest =>
    have hrest := h.modify t (g := (·.removeChildren finished)) fun _ => rfl
    unfold continueRound
    dsimp only
    rw [h.get?]
    cases m.get? t with
    | none => exact .halt h _
    | some u =>
      dsimp only [Option.map_some, Task.retime]
      split
      · exact .halt h _
      · split
        · exact .halt hrest _
        · split
          · exact .halt hrest _
          · rename_i i _ _
            rw [show (m'.modify t _).registry = _ from hrest.registry, Registry.settle_retime]
            cases Registry.settle _ t i finished with
            | error refusal =>
              dsimp only [Except.map]
              rw [hrest.steps]
              exact ⟨hrest, rfl, .same _⟩
            | ok settled =>
              obtain ⟨satisfied, i, r⟩ := settled
              have hawaiting :=
                (hrest.withRegistry (r := r) rfl).modify t (g := (·.awaiting i)) fun _ => rfl
              dsimp only [Except.map, Task.removeChildren]
              rw [Wait.isNow_retime]
              split
              · exact ⟨hawaiting, rfl, .same _⟩
              · exact .halt hawaiting _

/-- **The one place where ticks are compared.** -/
theorem continueLoop_retimed (h : m.Retimed f m') (brief : m.registry.Brief f) (hf : StrictMono f)
    (root : Nat) :
    (continueLoop o m root).Retimed f (continueLoop o m' root) := by
  have hsettled : Config.settled o m' root = Config.settled o m root := by
    unfold Config.settled
    rw [h.registry, Registry.isDone_retime]
    rfl
  unfold continueLoop
  rw [hsettled]
  split
  · exact .halt h []
  · obtain ⟨hmachine, hticked⟩ := h.tick (o := o) brief
    have hreg : (m.tick o).2.registry = m.registry := Machine.registry_tick ..
    rw [← hreg] at brief
    generalize m.tick o = ticked at hmachine hticked brief
    generalize m'.tick o = ticked' at hmachine hticked
    obtain ⟨result, m₁⟩ := ticked
    obtain ⟨result', m₁'⟩ := ticked'
    rcases hticked with ⟨hok, hok'⟩ | ⟨x, x', hx, hx', hretimed⟩
    · obtain rfl : result = .ok () := hok
      obtain rfl : result' = .ok () := hok'
      have hbatch : selectReadyBatch m₁'.registry.pendingTasks =
          (selectReadyBatch m₁.registry.pendingTasks).map (·.retime f) := by
        rw [show m₁'.registry = _ from hmachine.registry, Registry.pendingTasks_retime,
          selectReadyBatch_retime hf]
      dsimp only
      rw [hbatch, List.isEmpty_map, List.map_map]
      split
      · exact ⟨hmachine, rfl, .abort (hmachine.stopped brief ..)⟩
      · have hnoted := Machine.Retimed.noteUnblocking (o := o) hmachine brief fun t ht =>
          brief.of_mem_selectReadyBatch ht
        generalize m₁.noteUnblocking o _ = noted at hnoted
        generalize m₁'.noteUnblocking o _ = noted' at hnoted
        cases hnoted with
        | written hw => exact .halt hw _
        | refused x => exact ⟨hmachine, rfl, .same _⟩
    · obtain rfl : result = .error x := hx
      obtain rfl : result' = .error x' := hx'
      exact ⟨hmachine, rfl, .abort hretimed⟩

theorem continueBatch_retimed (h : m.Retimed f m') (stack : List Frame) (rest : List Nat) :
    (continueBatch m stack rest).Retimed f (continueBatch m' stack rest) := by
  cases rest with
  | nil =>
    unfold continueBatch
    rw [h.registry]
    exact ⟨h.withRegistry rfl, rfl, .same _⟩
  | cons t rest =>
    unfold continueBatch
    dsimp only
    rw [h.get?]
    cases m.get? t with
    | none => exact .halt h _
    | some u =>
      dsimp only [Option.map_some]
      rw [show (u.retime f).isSelectable = u.isSelectable from rfl]
      split
      · exact ⟨h, rfl, .same _⟩
      · exact .halt h _

theorem proceed_retimed (h : m.Retimed f m') (brief : m.registry.Brief f) (hf : StrictMono f)
    (stack : List Frame) :
    (proceed o m stack).Retimed f ((proceed o m' stack).retimeFrom f m'.registry.size) := by
  have hsize : ¬ (licence ⟨m', stack, .done⟩).makes →
      (proceed o m' stack).machine.registry.size ≤ m'.registry.size :=
    fun hn => Nat.le_of_eq ((amends_proceed m' stack o).size_eq_of_not_makes hn)
  match stack with
  | [] => exact (Retimed.halt h []).settled (hsize id)
  | .driving _ :: stack => exact (Retimed.halt h stack).settled (hsize id)
  | .member _ :: stack => exact (Retimed.halt h stack).settled (hsize id)
  | .composite c :: stack => exact .ofOutcome (h.continueComposite c) stack
  | .forked child :: stack => exact (Retimed.ofOutcome (h.afterFork child) stack).settled (hsize id)
  | .batch rest :: stack => exact (continueBatch_retimed h stack rest).settled (hsize id)
  | .round finished rest :: stack =>
    exact (continueRound_retimed h stack finished rest).settled (hsize id)
  | .loop root :: _ => exact (continueLoop_retimed h brief hf root).settled (hsize id)

/-- **A step of the retiming scheduler is the same step.** -/
theorem step_retimed (hw : w.Timeless) (hf : StrictMono f) {c c' : Config σ} (h : c.Retimed f c')
    (brief : c.machine.registry.Brief f) :
    (c.step w o).Retimed f (c'.stepRetimed f w o) := by
  obtain ⟨m, stack, control⟩ := c
  obtain ⟨m', stack', control'⟩ := c'
  obtain ⟨hm, rfl, hcontrol⟩ := h
  dsimp only at hm hcontrol
  have hsize : ¬ (licence ⟨m', stack', control'⟩).makes →
      (step w o ⟨m', stack', control'⟩).machine.registry.size ≤ m'.registry.size :=
    fun hn => Nat.le_of_eq ((amends_step w o _).size_eq_of_not_makes hn)
  cases hcontrol with
  | abort hx => exact (unwind_retimed hm hx stack').settled (hsize id)
  | same =>
    cases control with
    | done => exact proceed_retimed hm brief hf stack'
    | raised e => exact (catchException_retimed hm hw e stack').settled (hsize id)
    | abort x => exact (unwind_retimed hm (.same x) stack').settled (hsize id)
    | answer a => exact (deliver_retimed hm hw a stack').settled (hsize id)
    | drive t signal => exact (drive_retimed hm hw stack' t signal).settled (hsize id)
    | interpret t effect inComposite =>
      exact .ofOutcome (hm.interpret brief hw t effect inComposite) stack'
    | runTask t => exact (runTask_retimed hm stack' t).settled (hsize id)
    | start t => exact (start_retimed hm hw stack' t).settled (hsize id)
    | complete t v => exact (complete_retimed hm stack' t v).settled (hsize id)
    | fail t e =>
      suffices hstep :
        (step w o ⟨m, stack', .fail t e⟩).Retimed f (step w o ⟨m', stack', .fail t e⟩) from
        hstep.settled (hsize id)
      have hfail := hm.fail (o := o) t e
      unfold step
      dsimp only
      generalize m.fail o t e = failed at hfail ⊢
      generalize m'.fail o t e = failed' at hfail ⊢
      cases hfail with
      | none => exact .halt hm stack'
      | some hfailed => exact ⟨hfailed, rfl, .same _⟩
    | propagate t e => exact (propagate_retimed hm stack' t e).settled (hsize id)
    | bubble finished => exact (bubble_retimed hm brief stack' finished).settled (hsize id)

/-- The two runs end at the same time. -/
theorem Retimed.isFinal {c c' : Config σ} (h : c.Retimed f c') : c'.isFinal = c.isFinal := by
  obtain ⟨m, stack, control⟩ := c
  obtain ⟨m', stack', control'⟩ := c'
  obtain ⟨-, rfl, hcontrol⟩ := h
  cases hcontrol <;> rfl

theorem run_retimed (hw : w.Timeless) (hf : StrictMono f) (n : Nat) {c c' : Config σ}
    (h : c.Retimed f c') (brief : ∀ k < n, (run w o k c).machine.registry.Brief f) :
    (run w o n c).Retimed f (runRetimed f w o n c') := by
  induction n generalizing c c' with
  | zero => exact h
  | succ n ih =>
    rw [run, runRetimed, h.isFinal]
    by_cases hfinal : c.isFinal
    · rw [if_pos hfinal, if_pos hfinal]
      exact h
    · rw [if_neg hfinal, if_neg hfinal]
      refine ih (step_retimed hw hf h (brief 0 (Nat.succ_pos n))) fun k hk => ?_
      have hstep := brief (k + 1) (Nat.succ_lt_succ hk)
      rwa [run, if_neg hfinal] at hstep

/-- The root task has no tick to retime. -/
theorem launched_retimed (outer : σ) (name : String) (g : Nat) :
    (launched outer name g).Retimed f (launched outer name g) := by
  have hempty : Registry.empty.retime f = .empty := by simp [Registry.retime, Registry.empty]
  have hroot :=
    Registry.create_retime (f := f) .empty name .now none false (some (.ofGenerator g)) none
  rw [hempty] at hroot
  exact ⟨⟨hroot, rfl, .nil, rfl, rfl⟩, rfl, .same _⟩

end Config

/-! ### Where code does not look at wait states -/

/-- In the states with `P`, which the world does not leave, generators, functions, planner and
handlers do the same whatever the wait states are. -/
structure World.TimelessIn (w : World σ) (P : σ → Prop) : Prop where
  closed : w.Closed P
  resume : ∀ {v v' : View}, v.untimed = v'.untimed → ∀ (g : Nat) (signal : Signal) {s : σ}, P s →
    w.resume v g signal s = w.resume v' g signal s
  plan : ∀ {v v' : View}, v.untimed = v'.untimed → ∀ (call : Call) (forked : Bool) {s : σ}, P s →
    w.plan v call forked s = w.plan v' call forked s
  invoke : ∀ {v v' : View}, v.untimed = v'.untimed → ∀ (call : Call) {s : σ}, P s →
    w.invoke v call s = w.invoke v' call s
  handler : ∀ {e h}, w.handler? e = some h → ∀ {v v' : View}, v.untimed = v'.untimed →
    ∀ (context : Context) {s : σ}, P s → h v context s = h v' context s

theorem World.TimelessIn.confined {w : World σ} {P : σ → Prop} (h : w.TimelessIn P) :
    (w.confined h.closed).Timeless where
  resume hv := by
    funext g signal s
    simp only [World.confined, h.resume hv g signal s.2]
  plan hv := by
    funext call forked s
    simp only [World.confined, h.plan hv call forked s.2]
  invoke hv := by
    funext call s
    simp only [World.confined, h.invoke hv call s.2]
  handler := by
    intro e handler hh v v' hv
    simp only [World.confined, Option.pmap_eq_some_iff] at hh
    obtain ⟨handler, hw, _, rfl⟩ := hh
    funext context s
    simp only [h.handler hw hv context s.2]

namespace Config

variable {τ : Type} {p : σ → τ} {v : World σ} {w : World τ}

/-- The retiming scheduler, too, makes the same run in a world that mimics another one. -/
theorem runRetimed_seen (h : v.Mimics w p) (o : RunOptions) (n : Nat) (c : Config σ) :
    runRetimed f w o n (c.seen p) = (runRetimed f v o n c).seen p := by
  induction n generalizing c with
  | zero => rfl
  | succ n ih =>
    have hstep : (c.seen p).stepRetimed f w o = (c.stepRetimed f v o).seen p := by
      unfold stepRetimed
      rw [step_seen o h]
      rfl
    rw [runRetimed, runRetimed, show (c.seen p).isFinal = c.isFinal from rfl]
    split
    · rfl
    · rw [hstep, ih]

theorem Retimed.seen {c c' : Config σ} (h : c.Retimed f c') (p : σ → τ) :
    (c.seen p).Retimed f (c'.seen p) :=
  ⟨⟨h.machine.registry, h.machine.steps, h.machine.trace, h.machine.handled,
    congrArg p h.machine.outer⟩, h.stack, h.control⟩

end Config

/-- To code that does not look at wait states ticks that can be written matter by their order only.
-/
theorem World.TimelessIn.run_retimed {w : World σ} {P : σ → Prop}
    (hw : w.TimelessIn P) (hf : StrictMono f)
    (o : RunOptions) {outer : σ} (hP : P outer) (name : String) (g n : Nat)
    (brief : ∀ k < n,
      (Config.run w o k (Config.launched outer name g)).machine.registry.Brief f) :
    (Config.run w o n (Config.launched outer name g)).Retimed f
      (Config.runRetimed f w o n (Config.launched outer name g)) := by
  have hmimics := w.confined_mimics hw.closed
  have hbrief : ∀ k < n, (Config.run (w.confined hw.closed) o k
      (Config.launched ⟨outer, hP⟩ name g)).machine.registry.Brief f := by
    intro k hk
    have hseen := brief k hk
    rwa [show Config.launched outer name g =
      (Config.launched (⟨outer, hP⟩ : { s // P s }) name g).seen Subtype.val from rfl,
      Config.run_seen o hmimics] at hseen
  have hrun : (Config.run (w.confined hw.closed) o n (Config.launched ⟨outer, hP⟩ name g)).Retimed f
      (Config.runRetimed f (w.confined hw.closed) o n (Config.launched ⟨outer, hP⟩ name g)) :=
    Config.run_retimed hw.confined hf n (Config.launched_retimed _ name g) hbrief
  have hseen := hrun.seen Subtype.val
  rwa [← Config.run_seen o hmimics, ← Config.runRetimed_seen hmimics] at hseen

end Rehearsal
