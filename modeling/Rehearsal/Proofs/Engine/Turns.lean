import Rehearsal.Proofs.Engine.Covering

/-!
# What one step can do

`Turn` lists the steps of sound configurations by what they make of the stack and the control: which
frame is taken off or put on, which task is then in the hands of the scheduler, and what had to hold
for it. Whatever is said of stacks later on is read off this list.
-/
namespace Rehearsal

variable {σ : Type}

/-- The coroutine of `t` is about to be resumed with `s`, above the frames in `below`. -/
inductive Resumes : List Frame → Control → Nat → Signal → List Frame → Prop
  | driven (t : Nat) (s : Signal) (below : List Frame) : Resumes below (.drive t s) t s below
  | answered (t : Nat) (v : Value) (below : List Frame) :
      Resumes (.driving t :: below) (.answer (.advance v)) t (.send v) below
  | entered (t g : Nat) (below : List Frame) :
      Resumes (.driving t :: below) (.answer (.enter g)) t (.send .null) below
  | thrown (t : Nat) (e : Exn) (below : List Frame) :
      Resumes (.driving t :: below) (.raised e) t (.throw e) below

theorem Resumes.subset {stack below : List Frame} {control : Control} {t : Nat} {s : Signal}
    (h : Resumes stack control t s below) : below ⊆ stack := by
  cases h with
  | driven _ _ _ => exact List.Subset.refl _
  | _ => exact List.subset_cons_self ..

/-- A task is resumed alone. -/
theorem Resumes.unique {stack below below' : List Frame} {control : Control}
    {t t' : Nat} {s s' : Signal}
    (h : Resumes stack control t s below) (h' : Resumes stack control t' s' below') : t = t' := by
  cases h <;> cases h' <;> rfl

theorem Config.resumption?_eq_some {c : Config σ} {t : Nat} {s : Signal} :
    c.resumption? t = some s ↔ ∃ below, Resumes c.stack c.control t s below := by
  obtain ⟨m, stack, control⟩ := c
  constructor
  · intro h
    dsimp only [resumption?] at h
    split at h
    · obtain ⟨rfl, he⟩ := Option.ite_none_right_eq_some.mp h
      cases he
      exact ⟨_, .driven ..⟩
    · obtain ⟨rfl, he⟩ := Option.ite_none_right_eq_some.mp h
      cases he
      exact ⟨_, .answered ..⟩
    · obtain ⟨rfl, he⟩ := Option.ite_none_right_eq_some.mp h
      cases he
      exact ⟨_, .entered ..⟩
    · obtain ⟨rfl, he⟩ := Option.ite_none_right_eq_some.mp h
      cases he
      exact ⟨_, .thrown ..⟩
    · cases h
  · rintro ⟨below, h⟩
    cases h <;> simp [resumption?]

/-- The parent of a task that failed, which is told of it: it neither runs nor has failed, and
neither of the two has been let go. -/
structure Registry.Heeds (r : Registry) (t p : Nat) (u up : Task) : Prop where
  task : r.get? t = some u
  parent : u.parent = some p
  attached : u.abandoned = false
  owner : r.get? p = some up
  idle : up.running = false
  hale : up.error = none
  kept : up.abandoned = false

structure Registry.Born (r : Registry) (t : Nat) (u : Task) : Prop where
  kept : u.abandoned = false
  kin : (u.detached = true ∧ u.parent = none) ∨
    (u.detached = false ∧ u.parent = some (r.coroutineOwner t))

/-- The steps of sound configurations. -/
inductive Turn (o : RunOptions) : Config σ → Config σ → Prop
  /- A coroutine goes on. -/
  | yields {m m' : Machine σ} {stack below control t s} (resumes : Resumes stack control t s below)
      (effect : Value) :
      Turn o ⟨m, stack, control⟩ ⟨m', .driving t :: below, .interpret t effect false⟩
  | returns {m m' : Machine σ} {stack below control t s} (resumes : Resumes stack control t s below)
      (v : Value) : Turn o ⟨m, stack, control⟩ ⟨m', below, .complete t v⟩
  | escapes {m m' : Machine σ} {stack below control t s} (resumes : Resumes stack control t s below)
      {e : Exn} (ordinary : e.kind.isOrdinary = true) :
      Turn o ⟨m, stack, control⟩ ⟨m', below, .fail t e⟩
  | dies {m m' : Machine σ} {stack below control t s} (resumes : Resumes stack control t s below)
      (e : Exn) : Turn o ⟨m, stack, control⟩ ⟨m', .driving t :: below, .abort (.exn e)⟩
  /- A placeholder, or whoever is blocked, is taken off the stack. -/
  | fills {m m' : Machine σ} (p : Nat) (below : List Frame) (v : Value) :
      Turn o ⟨m, .member p :: below, .answer (.advance v)⟩ ⟨m', below, .complete p v⟩
  | enters {m m' : Machine σ} (p : Nat) (below : List Frame) (g : Nat) :
      Turn o ⟨m, .member p :: below, .answer (.enter g)⟩ ⟨m', below, .drive p (.send .null)⟩
  | blocks {m m' : Machine σ} {f : Frame} {t : Nat} (runner : f.runner? = some t)
      (below : List Frame) (i : Interruption) :
      Turn o ⟨m, f :: below, .answer (.block i)⟩ ⟨m', below, .done⟩
  | sinks {m m' : Machine σ} (p : Nat) (below : List Frame) (e : Exn) :
      Turn o ⟨m, .member p :: below, .raised e⟩ ⟨m', below, .fail p e⟩
  /- An effect is interpreted. -/
  | replies {m m' : Machine σ} (stack : List Frame) (t : Nat) (effect : Value)
      (b : Bool) (a : Answer) :
      Turn o ⟨m, stack, .interpret t effect b⟩ ⟨m', stack, .answer a⟩
  | refuses {m m' : Machine σ} (stack : List Frame) (t : Nat) (effect : Value)
      (b : Bool) (f : Failure) :
      Turn o ⟨m, stack, .interpret t effect b⟩ ⟨m', stack, f.control⟩
  | forks {m m' : Machine σ} (stack : List Frame) (t : Nat) (effect : Value) (b : Bool) {u : Task}
      (made : m'.registry.get? m.registry.size = some u) (born : m.registry.Born t u) :
      Turn o ⟨m, stack, .interpret t effect b⟩
        ⟨m', .forked m.registry.size :: stack, .start m.registry.size⟩
  | opens {m m' : Machine σ} (stack : List Frame) (t : Nat) (effect member : Value) (b : Bool)
      {k : Composite} {u : Task} (task : k.task = t) (members : k.members = [m.registry.size])
      (made : m'.registry.get? m.registry.size = some u) (bare : u.coroutine = none) :
      Turn o ⟨m, stack, .interpret t effect b⟩
        ⟨m', .member m.registry.size :: .composite k :: stack,
          .interpret m.registry.size member true⟩
  /- A race or gather goes on to its next member, or is concluded. -/
  | continues {m m' : Machine σ} (below : List Frame) {k k' : Composite} (member : Value) {u : Task}
      (rest : k.rest ≠ []) (task : k'.task = k.task)
      (members : k'.members = k.members ++ [m.registry.size])
      (made : m'.registry.get? m.registry.size = some u) (bare : u.coroutine = none) :
      Turn o ⟨m, .composite k :: below, .done⟩
        ⟨m', .member m.registry.size :: .composite k' :: below,
          .interpret m.registry.size member true⟩
  | concludes {m m' : Machine σ} (below : List Frame) {k : Composite} (rest : k.rest = [])
      (hale : m.firstError? k.members = none) (a : Answer) :
      Turn o ⟨m, .composite k :: below, .done⟩ ⟨m', below, .answer a⟩
  | condemns {m : Machine σ} (below : List Frame) {k : Composite} (rest : k.rest = []) {e : Exn}
      (first : m.firstError? k.members = some e) :
      Turn o ⟨m, .composite k :: below, .done⟩ ⟨m, below, (Failure.exn e).control⟩
  /- A fork goes on with its marker, or with the failure of the task it started. -/
  | marks {m : Machine σ} (below : List Frame) {child : Nat} {u : Task}
      (task : m.registry.get? child = some u) (hale : u.error = none ∨ u.detached = true) :
      Turn o ⟨m, .forked child :: below, .done⟩ ⟨m, below, .answer (.advance (.marker u.marker))⟩
  | rethrows {m : Machine σ} (below : List Frame) {child : Nat} {u : Task} {e : Exn}
      (task : m.registry.get? child = some u) (error : u.error = some e)
      (attached : u.detached = false) :
      Turn o ⟨m, .forked child :: below, .done⟩ ⟨m, below, (Failure.exn e).control⟩
  /- A task is in the hands of the scheduler. -/
  | runs {m m' : Machine σ} (stack : List Frame) (t : Nat) {control : Control}
      (leads : control = .start t ∨ (∃ v, control = .complete t v) ∨
        (∃ v, control = .drive t (.send v)) ∨ control = .done) :
      Turn o ⟨m, stack, .runTask t⟩ ⟨m', stack, control⟩
  | starts {m m' : Machine σ} (stack : List Frame) (t : Nat) {control : Control}
      (leads : control = .drive t (.send .null) ∨ control = .done ∨
        (∃ e : Exn, e.kind.isOrdinary = true ∧ control = .fail t e) ∨ ∃ f, control = .abort f) :
      Turn o ⟨m, stack, .start t⟩ ⟨m', stack, control⟩
  | completes {m m' : Machine σ} (stack : List Frame) (t : Nat) (v : Value) :
      Turn o ⟨m, stack, .complete t v⟩ ⟨m', stack, .done⟩
  | fails {m m' : Machine σ} (stack : List Frame) (t : Nat) (e : Exn) :
      Turn o ⟨m, stack, .fail t e⟩ ⟨m', stack, .propagate t e⟩
  /- A failure is told to the parent. -/
  | subsides {m m' : Machine σ} (stack : List Frame) {t : Nat} (e : Exn) {u : Task}
      (task : m.registry.get? t = some u) (same : m'.registry = m.registry)
      (swallowed : u.parent = none → (u.detached && o.swallowSpawnErrors) = true)
      (deaf : ∀ p up, ¬ m.registry.Heeds t p u up) :
      Turn o ⟨m, stack, .propagate t e⟩ ⟨m', stack, .done⟩
  | surfaces {m : Machine σ} (stack : List Frame) {t : Nat} (e : Exn) {u : Task}
      (task : m.registry.get? t = some u) (parent : u.parent = none)
      (heeded : (u.detached && o.swallowSpawnErrors) = false) :
      Turn o ⟨m, stack, .propagate t e⟩
        ⟨m, stack, .abort (.harness (.testedCode e u.id u.name m.steps))⟩
  | climbs {m m' : Machine σ} (stack : List Frame) {t p : Nat} (e : Exn) {u up : Task}
      (heeds : m.registry.Heeds t p u up) {control : Control}
      (leads : control = if up.coroutine.isSome then .drive p (.throw e) else .fail p e) :
      Turn o ⟨m, stack, .propagate t e⟩ ⟨m', stack, control⟩
  /- The main loop. -/
  | picks {m m' : Machine σ} {f f' : Frame} (below : List Frame) (t : Nat) {control : Control}
      (frames : (∃ rest, f = .batch (t :: rest) ∧ f' = .batch rest) ∨
        ∃ ids rest, f = .round ids (t :: rest) ∧ f' = .round ids rest)
      (leads : control = .runTask t ∨ control = .done) :
      Turn o ⟨m, f :: below, .done⟩ ⟨m', f' :: below, control⟩
  | bubbles {m m' : Machine σ} {f : Frame} (below : List Frame)
      (frame : f = .batch [] ∨ ∃ ids, f = .round ids [])
      (reaped : m'.registry = m.registry.reap.1) :
      Turn o ⟨m, f :: below, .done⟩ ⟨m', below, .bubble m.registry.finished⟩
  | rounds {m m' : Machine σ} (stack : List Frame) {ids : List Nat} (some : ids ≠ [])
      (same : m'.registry = m.registry) :
      Turn o ⟨m, stack, .bubble ids⟩ ⟨m', .round ids m.registry.pending :: stack, .done⟩
  | quiets {m : Machine σ} (stack : List Frame) : Turn o ⟨m, stack, .bubble []⟩ ⟨m, stack, .done⟩
  | balks {m : Machine σ} (stack : List Frame) {ids : List Nat} (some : ids ≠ []) :
      Turn o ⟨m, stack, .bubble ids⟩ ⟨m, stack, .abort (.exn m.unwritable)⟩
  | unblocks {m m' : Machine σ} (root : Nat) (ids : List Nat) :
      Turn o ⟨m, [.loop root], .done⟩ ⟨m', [.batch ids, .loop root], .done⟩
  | stops {m m' : Machine σ} (root : Nat) (f : Failure) :
      Turn o ⟨m, [.loop root], .done⟩ ⟨m', [.loop root], .abort f⟩
  | ends {m : Machine σ} (root : Nat) : Turn o ⟨m, [.loop root], .done⟩ ⟨m, [], .done⟩
  | rests {m : Machine σ} : Turn o ⟨m, [], .done⟩ ⟨m, [], .done⟩
  | unwinds {m m' : Machine σ} (stack : List Frame) (f : Failure) :
      Turn o ⟨m, stack, .abort f⟩ ⟨m', stack.tail, .abort f⟩

namespace Config

variable {o : RunOptions} {begun : Nat → Prop} {m m₀ : Machine σ} {stack : List Frame} {t : Nat}

/-! ### Coroutines -/

theorem turn_withCoroutine {control : Control} {below : List Frame} {s : Signal} {u : Task}
    (resumes : Resumes stack control t s below) (hu : m.registry.get? t = some u)
    (hco : u.coroutine.isSome = true) (go : Coroutine → σ → Progress × Coroutine × σ) :
    Turn o ⟨m₀, stack, control⟩ (withCoroutine m below t go) := by
  obtain ⟨c, hc⟩ := Option.isSome_iff_exists.mp hco
  have hget : m.get? t = some u := hu
  unfold withCoroutine
  simp only [hget, Option.bind_some, hc]
  obtain ⟨progress, c', s'⟩ := go c m.outer
  cases progress with
  | suspended effect => exact .yields resumes effect
  | finished v => exact .returns resumes v
  | raised e =>
    unfold afterProgress
    dsimp only
    split
    · rename_i hk
      exact .escapes resumes hk
    · exact .dies resumes e

theorem turn_deliver (w : World σ) {a : Answer}
    (h : Rehearsal.Sound begun m.registry stack (.answer a)) :
    Turn o ⟨m, stack, .answer a⟩ (deliver w o m a stack) := by
  cases h with
  | @answered t _ _ core nested _ =>
    cases nested with
    | driving _ nested =>
      obtain ⟨u, hu, _, _, hco⟩ := core.exists_driven
      cases a with
      | advance v =>
        unfold deliver resume resumeSeeing
        exact turn_withCoroutine (.answered t v _) hu hco _
      | enter g =>
        unfold deliver enter
        exact turn_withCoroutine (.entered t g _) hu hco _
      | block i => exact .blocks (f := .driving t) rfl _ i
    | member _ _ nested =>
      cases a with
      | advance v => exact .fills t _ v
      | enter g => exact .enters t _ g
      | block i => exact .blocks (f := .member t) rfl _ i

theorem turn_catchException (w : World σ) {e : Exn}
    (h : Rehearsal.Sound begun m.registry stack (.raised e)) :
    Turn o ⟨m, stack, .raised e⟩ (catchException w m e stack) := by
  cases h with
  | @raised t _ _ core nested =>
    cases nested with
    | driving _ nested =>
      obtain ⟨u, hu, _, _, hco⟩ := core.exists_driven
      unfold catchException resumeSeeing
      exact turn_withCoroutine (.thrown t e _) hu hco _
    | member _ _ nested => exact .sinks t _ e

theorem turn_drive (w : World σ) {s : Signal}
    (h : Rehearsal.Sound begun m.registry stack (.drive t s)) :
    Turn o ⟨m, stack, .drive t s⟩ (drive w m stack t s) := by
  cases h with
  | @driving _ u _ _ core nested hu poised =>
    have hu' := Registry.get?_modify_of_eq_some (fun u => { u with running := true }) hu
    unfold drive resume resumeSeeing
    exact turn_withCoroutine (u := { u with running := true })
      (.driven t s stack) hu' poised.coroutine _

/-! ### Interpretations -/

section Interpret

variable {effect : Value} {b : Bool}

abbrev TurnsOut (o : RunOptions) (m₀ : Machine σ) (stack : List Frame) (t : Nat) (effect : Value)
    (b : Bool) (r : Outcome σ) : Prop :=
  Turn o ⟨m₀, stack, .interpret t effect b⟩ (ofOutcome stack r)

theorem turn_answer (m : Machine σ) (a : Answer) :
    TurnsOut o m₀ stack t effect b (.answer m a) := .replies stack t effect b a

theorem turn_failure (m : Machine σ) (f : Failure) :
    TurnsOut o m₀ stack t effect b (.failure m f) := .refuses stack t effect b f

theorem turn_interpretCall (w : World σ) (call : Call) :
    TurnsOut o m₀ stack t effect b (m.interpretCall w t call) := by
  unfold Machine.interpretCall
  obtain ⟨answer, s⟩ := w.plan m.view call false m.outer
  cases answer with
  | error f => exact turn_failure _ f
  | ok plan =>
    dsimp only
    split
    · obtain ⟨produced, m'⟩ := Machine.produce w { m with outer := s } plan call
      cases produced with
      | error e => exact turn_failure m' (.exn e)
      | ok v =>
        dsimp only
        unfold Machine.produced
        split
        · exact turn_answer m' _
        · exact turn_answer m' _
    · exact turn_answer _ _

theorem turn_interpretFork (w : World σ) (call : Call) (detached : Bool)
    (hm : m.registry = m₀.registry) (hlt : m.registry.coroutineOwner t < m.registry.size) :
    TurnsOut o m₀ stack t effect b (m.interpretFork w t call detached) := by
  unfold Machine.interpretFork
  obtain ⟨answer, s⟩ := w.plan m.view call true m.outer
  cases answer with
  | error f => exact turn_failure _ f
  | ok plan =>
    dsimp only
    rw [Machine.create_eq]
    split
    · have hnew := Registry.Forest.get?_create_new (r := m.registry) call.name plan.wait
        (if detached then none else some (m.registry.coroutineOwner t)) detached none
        (some (.planned plan call)) (by
          intro p hp
          cases detached with
          | true => cases hp
          | false =>
            cases hp
            exact hlt)
      rw [hm] at hnew
      show Turn o _ ⟨_, .forked m.registry.size :: stack, .start m.registry.size⟩
      rw [hm]
      refine .forks stack t effect b hnew ⟨rfl, ?_⟩
      cases detached with
      | true => exact Or.inl ⟨rfl, rfl⟩
      | false => exact Or.inr ⟨rfl, rfl⟩
    · exact turn_answer _ _

theorem turn_interpretJoin (targets : Targets) :
    TurnsOut o m₀ stack t effect b (m.interpretJoin targets) := by
  unfold Machine.interpretJoin
  split
  · exact turn_failure m _
  · dsimp only
    split
    · exact turn_answer m _
    · exact turn_answer m _

theorem turn_interpretCancel (targets : Targets) :
    TurnsOut o m₀ stack t effect b (m.interpretCancel targets) := by
  unfold Machine.interpretCancel
  split
  · exact turn_failure m _
  · exact turn_answer _ _

theorem turn_interpretExternal (w : World σ) (e : Effect) (inComposite : Bool) :
    TurnsOut o m₀ stack t effect b (m.interpretExternal w t e inComposite) := by
  unfold Machine.interpretExternal
  split
  · exact turn_failure m _
  · rename_i handler _
    dsimp only
    obtain ⟨reaction, s⟩ := handler m.view ⟨⟨t, m.nameOf t, true⟩, inComposite, m.steps⟩ m.outer
    cases reaction with
    | error f => exact turn_failure _ f
    | ok reaction =>
      cases reaction with
      | advance v => exact turn_answer _ _
      | defer v wait name => exact turn_answer _ _
      | invalid v => exact turn_failure _ _

/-- The placeholder of the next member is there, and has no coroutine. -/
theorem exists_placeholder (name : String) (wait : Wait) {parent : Nat}
    (hp : parent < m.registry.size) :
    ∃ u, ((m.create name wait (some parent) false none).1.modify m.registry.size
        fun task => { task with running := true }).registry.get? m.registry.size = some u ∧
      u.coroutine = none := by
  have hnew := Registry.Forest.get?_create_new (r := m.registry) name wait (some parent) false none
    none (by
      rintro _ ⟨⟩
      exact hp)
  rw [Machine.create_eq]
  exact ⟨_, Registry.get?_modify_of_eq_some _ hnew, rfl⟩

theorem turn_interpretComposite (isRace : Bool) (members : Members) (hm : m.registry = m₀.registry)
    (ht : t < m.registry.size) :
    TurnsOut o m₀ stack t effect b (m.interpretComposite t isRace members) := by
  unfold Machine.interpretComposite Machine.continueComposite
  dsimp only
  split
  · rw [Machine.concludeComposite_eq]
    split
    · exact turn_failure m _
    · dsimp only
      split
      · exact turn_answer _ _
      · split
        · exact turn_answer _ _
        · exact turn_answer _ _
  · rename_i key member rest _
    obtain ⟨u, hu, hco⟩ := exists_placeholder (m := m)
      ((if isRace then "race" else "all") ++ "[" ++ key.plain ++ "]")
      (.tier (if isRace then .race else .all)) ht
    rw [Machine.create_eq] at hu ⊢
    dsimp only at hu ⊢
    rw [hm] at hu
    show Turn o _ ⟨_, .member m.registry.size :: .composite _ :: stack,
      .interpret m.registry.size member true⟩
    rw [hm]
    exact .opens stack t effect member b rfl rfl hu hco

theorem turn_interpretEffect (w : World σ) (e : Effect) (inComposite : Bool)
    (hm : m.registry = m₀.registry) (ht : t < m.registry.size)
    (hlt : m.registry.coroutineOwner t < m.registry.size) :
    TurnsOut o m₀ stack t effect b (m.interpretEffect w t e inComposite) := by
  unfold Machine.interpretEffect
  split
  · exact turn_interpretCall w _
  · exact turn_interpretFork w _ _ hm hlt
  · exact turn_interpretJoin _
  · exact turn_interpretComposite _ _ hm ht
  · exact turn_interpretComposite _ _ hm ht
  · exact turn_interpretCancel _
  · exact turn_answer _ _
  · unfold Machine.interpretCancelled
    split
    · exact turn_answer m _
    · exact turn_answer m _
  · exact turn_answer _ _
  · exact turn_interpretExternal w _ _

theorem turn_interpret (w : World σ)
    (h : Rehearsal.Sound begun m.registry stack (.interpret t effect b)) :
    Turn o ⟨m, stack, .interpret t effect b⟩ (ofOutcome stack (m.interpret w o t effect b)) := by
  cases h with
  | interpreting _ _ core nested =>
    obtain ⟨u, hu⟩ := core.exists_of_mem_runners nested.runner_mem
    have hr := (core.running_iff hu).mpr nested.runner_mem
    obtain ⟨v, hv, _⟩ := core.forest.coroutineOwner_spec hu ((core.stands hu).free hr).done
    rcases m.interpret_cases w o t effect b with ⟨f, heq⟩ | ⟨g, _, heq⟩ | ⟨e, _, heq⟩
    · rw [heq]
      exact turn_failure _ f
    · rw [heq]
      exact turn_answer _ _
    · rw [heq]
      exact turn_interpretEffect w e b rfl (Registry.get?_eq_some_lt hu)
        (Registry.get?_eq_some_lt hv)

end Interpret

/-! ### Tasks in the hands of the scheduler -/

theorem turn_afterEntry {m' : Machine σ} (produced : Except Exn Value) :
    Turn o ⟨m, stack, .start t⟩ (afterEntry o m' stack t produced) := by
  unfold afterEntry
  split
  · exact .starts stack t (Or.inl rfl)
  · exact .starts stack t (Or.inr (Or.inl rfl))
  · rename_i e
    split
    · rename_i hk
      exact .starts stack t (Or.inr (Or.inr (Or.inl ⟨e, hk, rfl⟩)))
    · exact .starts stack t (Or.inr (Or.inr (Or.inr ⟨_, rfl⟩)))

theorem turn_start (w : World σ) (h : Rehearsal.Sound begun m.registry stack (.start t)) :
    Turn o ⟨m, stack, .start t⟩ (start w o m stack t) := by
  cases h with
  | @starting _ u _ core nested hu _ _ =>
    have hget : m.get? t = some u := hu
    cases he : u.entry with
    | none =>
      unfold start
      simp only [hget, he]
      exact .starts stack t (Or.inr (Or.inl rfl))
    | some entry =>
      rw [start_eq w o hget he]
      cases entry with
      | planned plan call => exact turn_afterEntry _
      | constant v => exact turn_afterEntry _

theorem turn_runTask (h : Rehearsal.Sound begun m.registry stack (.runTask t)) :
    Turn o ⟨m, stack, .runTask t⟩ (runTask m stack t) := by
  cases h with
  | @selected _ u _ core nested hu ready =>
    have hget : m.get? t = some u := hu
    unfold runTask
    simp only [hget]
    rcases ready with ⟨fresh, _⟩ | ⟨i, a, h⟩
    · simp only [fresh.interruption]
      exact .runs stack t (Or.inl rfl)
    · obtain ⟨kind, pending, dependencies, answer⟩ := i
      obtain rfl : answer = some a := h.answer
      simp only [h.interruption]
      split
      · split
        all_goals exact .runs stack t (Or.inr (Or.inr (Or.inr rfl)))
      · split
        · exact .runs stack t (Or.inr (Or.inl ⟨_, rfl⟩))
        · exact .runs stack t (Or.inr (Or.inr (Or.inl ⟨_, rfl⟩)))

theorem turn_propagate {e : Exn} (h : Rehearsal.Sound begun m.registry stack (.propagate t e)) :
    Turn o ⟨m, stack, .propagate t e⟩ (propagate o m stack t e) := by
  cases h with
  | @propagating _ u _ _ core nested hu hparent =>
    have hget : m.get? t = some u := hu
    cases hp : u.parent with
    | none =>
      have hnone : ∀ p up, ¬ m.registry.Heeds t p u up := by
        intro p up h
        rw [h.parent] at hp
        cases hp
      unfold propagate
      simp only [hget, hp]
      split
      · rename_i hs
        exact .subsides stack e hu rfl (fun _ => hs) hnone
      · rename_i hs
        exact .surfaces stack e hu hp (by simpa using hs)
    | some p =>
      obtain ⟨up, hup, _⟩ := hparent p hp
      by_cases hdeaf : u.abandoned = true ∨ up.running = true ∨ up.error.isSome = true ∨
          up.abandoned = true
      · rw [propagate_deaf o e hget hp hup hdeaf]
        refine .subsides stack e hu rfl (fun hn => ?_) fun q uq h => ?_
        · rw [hp] at hn
          cases hn
        · have hq := h.parent
          rw [hp, Option.some.injEq] at hq
          subst hq
          have huq := h.owner
          rw [hup, Option.some.injEq] at huq
          subst huq
          simp [h.attached, h.idle, h.hale, h.kept] at hdeaf
      · simp only [not_or, Bool.not_eq_true, Option.isSome_eq_false_iff,
          Option.isNone_iff_eq_none] at hdeaf
        obtain ⟨ha, hr, herr, hab⟩ := hdeaf
        rw [propagate_eq o e hget hp ha hup hr herr hab]
        have heeds : m.registry.Heeds t p u up := ⟨hu, hp, ha, hup, hr, herr, hab⟩
        split
        · rename_i hco
          refine .climbs stack e heeds ?_
          rw [if_neg]
          simpa using hco
        · rename_i hco
          refine .climbs stack e heeds ?_
          rw [if_pos]
          simpa [Option.isSome_iff_ne_none] using hco

/-! ### The main loop -/

theorem turn_continueBatch {below : List Frame} (rest : List Nat) :
    Turn o ⟨m, .batch rest :: below, .done⟩ (continueBatch m below rest) := by
  cases rest with
  | nil => exact .bubbles below (Or.inl rfl) rfl
  | cons t rest =>
    have hframes : (∃ rest', Frame.batch (t :: rest) = .batch (t :: rest') ∧
        Frame.batch rest = .batch rest') ∨ ∃ ids rest', Frame.batch (t :: rest) =
          .round ids (t :: rest') ∧ Frame.batch rest = .round ids rest' := Or.inl ⟨rest, rfl, rfl⟩
    unfold continueBatch
    dsimp only
    split
    · split
      · exact .picks below t hframes (Or.inl rfl)
      · exact .picks below t hframes (Or.inr rfl)
    · exact .picks below t hframes (Or.inr rfl)

theorem turn_continueLoop (root : Nat) :
    Turn o ⟨m, [.loop root], .done⟩ (continueLoop o m root) := by
  rcases continueLoop_cases o m root with ⟨_, heq⟩ | ⟨_, ⟨f, heq⟩ | ⟨_, _, trace, heq⟩⟩
  · rw [heq]
    exact .ends root
  · rw [heq]
    exact .stops root f
  · rw [heq]
    exact .unblocks root _

/-- The turn of a task in a round ends in its being selected, or not, unless what it waits for makes
no sense. -/
theorem continueRound_cons (m : Machine σ) (stack : List Frame) (ids rest : List Nat) (t : Nat) :
    ∃ m' control, continueRound m stack ids (t :: rest) = ⟨m', .round ids rest :: stack, control⟩ ∧
      (control = .runTask t ∨ control = .done ∨ ∃ e, control = .raised e) := by
  unfold continueRound
  dsimp only
  split
  · exact ⟨m, _, rfl, Or.inr (Or.inl rfl)⟩
  · split
    · exact ⟨m, _, rfl, Or.inr (Or.inl rfl)⟩
    · split
      · exact ⟨_, _, rfl, Or.inr (Or.inl rfl)⟩
      · split
        · exact ⟨_, _, rfl, Or.inr (Or.inl rfl)⟩
        · split
          · exact ⟨_, _, rfl, Or.inr (Or.inr ⟨_, rfl⟩)⟩
          · split
            · exact ⟨_, _, rfl, Or.inl rfl⟩
            · exact ⟨_, _, rfl, Or.inr (Or.inl rfl)⟩

theorem turn_continueRound {ids rest : List Nat}
    (core : Core begun m.registry [] (.round ids rest :: stack) none)
    (nested : Nested none (.round ids rest :: stack)) :
    Turn o ⟨m, .round ids rest :: stack, .done⟩ (continueRound m stack ids rest) := by
  cases rest with
  | nil => exact .bubbles stack (Or.inr ⟨ids, rfl⟩) rfl
  | cons t rest =>
    have hs := sound_continueRound core nested
    obtain ⟨m', control, he, hcontrol⟩ := continueRound_cons m stack ids rest t
    rw [he] at hs ⊢
    refine .picks stack t (Or.inr ⟨ids, rest, rfl, rfl⟩) (hcontrol.imp_right fun h => ?_)
    refine h.resolve_right ?_
    rintro ⟨e, rfl⟩
    cases hs with
    | raised _ _ nested =>
      obtain ⟨f, below, hf, rfl | rfl, _⟩ := nested.inv_some <;> cases hf

theorem turn_continueComposite {k : Composite} (core : Core begun m.registry [] stack none)
    (nested : Nested (some k.task) stack) :
    Turn o ⟨m, .composite k :: stack, .done⟩ (ofOutcome stack (m.continueComposite k)) := by
  obtain ⟨u, hu⟩ := core.exists_of_mem_runners nested.runner_mem
  unfold Machine.continueComposite
  split
  · rename_i hrest
    rw [Machine.concludeComposite_eq]
    split
    · rename_i e he
      exact .condemns stack hrest he
    · rename_i hhale
      dsimp only
      split
      · exact .concludes stack hrest hhale _
      · split
        · exact .concludes stack hrest hhale _
        · exact .concludes stack hrest hhale _
  · rename_i key member rest hrest
    obtain ⟨v, hv, hco⟩ := exists_placeholder (m := m)
      ((if k.isRace then "race" else "all") ++ "[" ++ key.plain ++ "]")
      (.tier (if k.isRace then .race else .all)) (Registry.get?_eq_some_lt hu)
    dsimp only
    rw [Machine.create_eq] at hv ⊢
    refine .continues stack member ?_ rfl (by simp [Composite.members]) hv hco
    rw [hrest]
    exact List.cons_ne_nil _ _

theorem turn_afterFork {child : Nat}
    (core : Core begun m.registry [] (.forked child :: stack) none) :
    Turn o ⟨m, .forked child :: stack, .done⟩ (ofOutcome stack (m.afterFork child)) := by
  obtain ⟨u, hu⟩ := core.frames (.forked child) (List.mem_cons_self ..)
  have hget : m.get? child = some u := hu
  unfold Machine.afterFork
  simp only [hget]
  cases he : u.error with
  | none => exact .marks stack hu (Or.inl he)
  | some e =>
    dsimp only
    split
    · rename_i hd
      exact .marks stack hu (Or.inr hd)
    · rename_i hd
      exact .rethrows stack hu he (by simpa using hd)

theorem turn_proceed (h : Rehearsal.Sound begun m.registry stack .done) :
    Turn o ⟨m, stack, .done⟩ (proceed o m stack) := by
  cases h with
  | settled _ _ => exact .rests
  | looking _ _ => exact turn_continueLoop 0
  | resting core nested =>
    cases nested with
    | batch rest root => exact turn_continueBatch rest
    | round ids rest root => exact turn_continueRound core (.round ids rest root)
    | forked child nested => exact turn_afterFork core
    | composite k nested => exact turn_continueComposite (core.tail rfl fun _ => rfl) nested

theorem turn_bubble (ids : List Nat) :
    Turn o ⟨m, stack, .bubble ids⟩ (bubble o m stack ids) := by
  rcases bubble_cases o m stack ids with ⟨rfl, heq⟩ | ⟨hne, ⟨trace, heq⟩ | ⟨_, heq⟩⟩
  · exact .quiets stack
  · rw [heq]
    exact .rounds stack hne rfl
  · rw [heq]
    exact .balks stack hne

theorem turn_unwind (f : Failure) : Turn o ⟨m, stack, .abort f⟩ (unwind m f stack) := by
  unfold unwind
  split
  · exact .unwinds (.driving _ :: _) f
  · exact .unwinds (_ :: _) f
  · exact .unwinds [] f

/-- **A step of a sound configuration is one of the turns.** -/
theorem turn_step (w : World σ) (o : RunOptions) {c : Config σ} (h : c.Sound begun) :
    Turn o c (c.step w o) := by
  obtain ⟨m, stack, control⟩ := c
  cases control with
  | done => exact turn_proceed h
  | raised e => exact turn_catchException w h
  | abort f => exact turn_unwind f
  | answer a => exact turn_deliver w h
  | drive t s => exact turn_drive w h
  | interpret t effect inComposite => exact turn_interpret w h
  | runTask t => exact turn_runTask h
  | start t => exact turn_start w h
  | complete t v => exact .completes stack t v
  | fail t e =>
    obtain ⟨m', he, _⟩ := step_fail w o h
    rw [he]
    exact .fails stack t e
  | propagate t e => exact turn_propagate h
  | bubble ids => exact turn_bubble ids

end Config

end Rehearsal
