import Rehearsal.Proofs.Engine.Errands

/-!
# Calls that race

The members of a race are interpreted one after the other, each for a placeholder of its own. A call
that need not wait is over at once, and so is its placeholder; any other leaves a task behind that
its placeholder waits for. So the tasks of a race are numbered in the order of its members, and
`Racer.Stands` says where each of them is.
-/
namespace Rehearsal

variable {σ : Type} {w : World σ} {o : RunOptions}

/-- A member of a race: a call with the output that is planned for it, and its wait. -/
structure Entrant where
  call : Call
  output : Value
  wait : Wait
  plain : ∀ g, output ≠ .generator g
  untiered : ∀ tier, wait ≠ .tier tier

namespace Entrant

def plan (e : Entrant) : CallPlan := ⟨false, e.output, none, e.wait⟩

def effect (e : Entrant) : Value := .effect (.call e.call.fn e.call.args e.call.kwargs)

/-- The call need not wait. -/
def prompt (e : Entrant) : Bool := decide (e.wait = .now)

def span (e : Entrant) : Nat := if e.prompt then 1 else 2

end Entrant

/-- An entrant with its key and its placeholder. -/
structure Racer where
  key : Value
  entrant : Entrant
  place : Nat

namespace Racer

/-- The racers when the next task is `n`. -/
def lineUp : List (Value × Entrant) → Nat → List Racer
  | [], _ => []
  | (key, e) :: rest, n => ⟨key, e, n⟩ :: lineUp rest (n + e.span)

/-- The tasks made for a racer. -/
def tasks (q : Racer) : List Nat := List.range' q.place q.entrant.span

def label (q : Racer) : String := "race" ++ "[" ++ q.key.plain ++ "]"

def race (keyed : Bool) (field : List Racer) (rest : List (Value × Entrant)) : Composite :=
  ⟨0, true, keyed, field.map fun q => (q.key, q.place), rest.map fun x => (x.1, x.2.effect)⟩

theorem mem_tasks {q : Racer} {i : Nat} :
    i ∈ q.tasks ↔ i = q.place ∨ q.entrant.prompt = false ∧ i = q.place + 1 := by
  unfold tasks Entrant.span
  rw [List.mem_range'_1]
  cases q.entrant.prompt
  · simp only [Bool.false_eq_true, if_false, true_and]
    omega
  · simp only [if_true, Bool.true_eq_false, false_and, or_false]
    omega

theorem place_mem_tasks (q : Racer) : q.place ∈ q.tasks := mem_tasks.mpr (Or.inl rfl)

def Field (field : List Racer) (n : Nat) : Prop := 0 :: field.flatMap tasks = List.range n

namespace Field

variable {field : List Racer} {n i : Nat} {q q' : Racer}

theorem nil : Field [] 1 := rfl

/-- The tasks of the next racer are the next ones. -/
theorem snoc (h : Field field n) (key : Value) (e : Entrant) :
    Field (field ++ [⟨key, e, n⟩]) (n + e.span) := by
  show 0 :: (field ++ [(⟨key, e, n⟩ : Racer)]).flatMap tasks = _
  rw [List.flatMap_append, List.flatMap_singleton, ← List.cons_append, h, List.range_eq_range',
    List.range_eq_range', ← List.range'_append_1, Nat.zero_add]
  rfl

theorem range (h : Field field n) (hq : q ∈ field) (hi : i ∈ q.tasks) : 0 < i ∧ i < n := by
  have hmem : i ∈ field.flatMap tasks := List.mem_flatMap.mpr ⟨q, hq, hi⟩
  have hnodup : (0 :: field.flatMap tasks).Nodup := (show _ = _ from h) ▸ List.nodup_range
  refine ⟨Nat.pos_of_ne_zero ?_, List.mem_range.mp (h ▸ List.mem_cons_of_mem _ hmem)⟩
  rintro rfl
  exact (List.nodup_cons.mp hnodup).1 hmem

/-- Every task but the root is one of somebody's. -/
theorem cover (h : Field field n) (hpos : 0 < i) (hi : i < n) : ∃ q ∈ field, i ∈ q.tasks := by
  have hmem : i ∈ 0 :: field.flatMap tasks := (show _ = _ from h) ▸ List.mem_range.mpr hi
  exact List.mem_flatMap.mp ((List.mem_cons.mp hmem).resolve_left (Nat.ne_of_gt hpos))

/-- No task is one of two racers. -/
theorem unique (h : Field field n) (hq : q ∈ field) (hq' : q' ∈ field) (hi : i ∈ q.tasks)
    (hi' : i ∈ q'.tasks) :
    q = q' := by
  have hnodup : (0 :: field.flatMap tasks).Nodup := (show _ = _ from h) ▸ List.nodup_range
  have hpairs := (List.nodup_flatMap.mp (List.nodup_cons.mp hnodup).2).2
  have : Std.Symm (Function.onFun List.Disjoint tasks) := ⟨fun _ _ h => h.symm⟩
  by_contra hne
  exact hpairs.forall hq hq' hne hi hi'

end Field

/-! ### Where a racer stands -/

/-- The placeholder of the racer; one that has lost is cancelled and abandoned. -/
structure Holds (q : Racer) (lost : Bool) (t : Task) : Prop where
  name : t.name = q.label
  parent : t.parent = some 0
  hale : t.error = none
  cancelled : t.cancelled = lost
  abandoned : t.abandoned = lost

end Racer

structure Task.Came (v : Value) (t : Task) : Prop where
  done : t.done = true
  result : t.result = v

/-- Where a racer stands: whether its call has been made, whether its placeholder is over, and
whether it has lost. -/
structure Racer.Stands (made ended lost : Bool) (r : Registry) (q : Racer) : Prop where
  late : ended = false → q.entrant.prompt = false
  place : ∃ t, r.get? q.place = some t ∧ q.Holds lost t ∧ (ended = true → t.Came q.entrant.output) ∧
    (ended = false → t.AwaitsChild (q.place + 1))
  call : q.entrant.prompt = false → ∃ u, r.get? (q.place + 1) = some u ∧ u.parent = some q.place ∧
    u.error = none ∧ (made = true → u.Came q.entrant.output) ∧
    (made = false → u.Planned q.entrant.plan q.entrant.call)

namespace Racer.Stands

variable {made ended lost : Bool} {r r' : Registry} {q : Racer}

theorem congr (h : q.Stands made ended lost r) (hget : ∀ i ∈ q.tasks, r'.get? i = r.get? i) :
    q.Stands made ended lost r' where
  late := h.late
  place := by
    rw [hget _ q.place_mem_tasks]
    exact h.place
  call := fun hlate => by
    rw [hget _ (mem_tasks.mpr (Or.inr ⟨hlate, rfl⟩))]
    exact h.call hlate

theorem isDone_place (h : q.Stands made ended lost r) : r.isDone q.place = ended := by
  obtain ⟨t, ht, _, came, awaits⟩ := h.place
  rw [Registry.isDone_of_eq_some ht]
  cases ended with
  | true => exact (came rfl).done
  | false => exact (awaits rfl).done

theorem resultOf_place (h : q.Stands made true lost r) : r.resultOf q.place = q.entrant.output := by
  obtain ⟨t, ht, _, came, _⟩ := h.place
  simp only [Registry.resultOf, ht]
  exact (came rfl).result

end Racer.Stands

/-! ### Members are interpreted -/

/-- Asked for these calls one after the other, the planner gives each its output and its wait, and
is then in a state with the property. -/
def World.Schedules (w : World σ) (after : σ → Prop) : List Entrant → σ → Prop
  | [], s => after s
  | e :: rest, s =>
    ∀ view, ∃ s', w.plan view e.call false s = (.ok e.plan, s') ∧ w.Schedules after rest s'

def Machine.seated (m : Machine σ) (key : Value) : Machine σ :=
  { m with
    registry :=
      (m.registry.create ("race" ++ "[" ++ key.plain ++ "]") (.tier .race) (some 0) false none
      none).1.modify m.registry.size fun task => { task with running := true } }

namespace Machine

variable {m : Machine σ} {key : Value} {i : Nat}

theorem continueComposite_race (m : Machine σ) (keyed : Bool) (field : List Racer)
    (key : Value) (e : Entrant)
    (rest : List (Value × Entrant)) :
    m.continueComposite (Racer.race keyed field ((key, e) :: rest)) =
      ⟨m.seated key, [.member m.registry.size,
        .composite (Racer.race keyed (field ++ [⟨key, e, m.registry.size⟩]) rest)],
        .interpret m.registry.size e.effect true⟩ := by
  simp only [Racer.race, List.map_append, List.map_cons, List.map_nil]
  rfl

@[simp] theorem size_seated (m : Machine σ) (key : Value) :
    (m.seated key).registry.size = m.registry.size + 1 :=
  (Registry.size_modify ..).trans (Registry.size_create ..)

theorem get?_seated (hpos : 0 < m.registry.size) (hi : i ≠ m.registry.size) :
    (m.seated key).registry.get? i =
      if i = 0 then (m.registry.get? 0).map
          (·.addChild m.registry.size) else m.registry.get? i := by
  have hparent : ∀ p, some 0 = some p → p < m.registry.size := by
    rintro p ⟨⟩
    exact hpos
  refine (Registry.get?_modify_ne hi).trans ?_
  rw [Registry.get?_create hparent, if_neg hi]
  by_cases h0 : i = 0
  · subst h0
    rw [if_pos rfl, if_pos rfl]
  · rw [if_neg (by simpa using Ne.symm h0), if_neg h0]

theorem get?_seated_new (key : Value) (hpos : 0 < m.registry.size) :
    (m.seated key).registry.get? m.registry.size =
      some { Task.fresh m.registry.size ("race" ++ "[" ++ key.plain ++ "]") (.tier .race)
        (some 0) false none none
        with running := true } :=
  Registry.get?_modify_of_eq_some _
    (Registry.Forest.get?_create_new _ _ _ _ _ _ (by rintro p ⟨⟩; exact hpos))

end Machine

/-! ### Members that are interpreted -/

structure Task.Goes (g : Nat) (t : Task) : Prop where
  coroutine : t.coroutine = some ⟨[g], true⟩
  undone : t.done = false
  hale : t.error = none

/-- The root has got the placeholders of these racers, and those that need not wait are over. -/
structure Machine.LinedUp (g : Nat) (field : List Racer) (m : Machine σ) : Prop where
  stands : ∀ q ∈ field, q.Stands false q.entrant.prompt false m.registry
  tasks : Racer.Field field m.registry.size
  root : ∃ u, m.registry.get? 0 = some u ∧ u.Goes g
  finished : (∀ q ∈ field, q.entrant.prompt = false) → m.registry.finished = []

/-- One more racer has been lined up. -/
theorem Machine.LinedUp.snoc {g : Nat} {field : List Racer} {m m' : Machine σ}
    {key : Value} {e : Entrant}
    (h : m.LinedUp g field) (hsize : m'.registry.size = m.registry.size + e.span)
    (hget : ∀ i ≠ 0, i < m.registry.size → m'.registry.get? i = m.registry.get? i)
    (hroot : ∀ u, m.registry.get? 0 = some u →
      m'.registry.get? 0 = some (u.addChild m.registry.size))
    (hfinished : e.prompt = false → m'.registry.finished = m.registry.finished)
    (hstands : Racer.Stands false e.prompt false m'.registry ⟨key, e, m.registry.size⟩) :
    m'.LinedUp g (field ++ [⟨key, e, m.registry.size⟩]) where
  stands := by
    intro q hq
    rcases List.mem_append.mp hq with hq | hq
    · refine (h.stands q hq).congr fun i hi => ?_
      obtain ⟨hpos, hlt⟩ := h.tasks.range hq hi
      exact hget i (Nat.ne_of_gt hpos) hlt
    · rw [List.mem_singleton.mp hq]
      exact hstands
  tasks := hsize ▸ h.tasks.snoc key e
  root := by
    obtain ⟨u, hu, hco, hundone, hale⟩ := h.root
    refine ⟨_, hroot u hu, ?_⟩
    unfold Task.addChild
    split <;> exact ⟨hco, hundone, hale⟩
  finished := fun hlate => by
    rw [hfinished (hlate _ (List.mem_append_right _ (List.mem_singleton_self _)))]
    exact h.finished fun q hq => hlate q (List.mem_append_left _ hq)

namespace Machine.LinedUp

variable {g : Nat} {field : List Racer} {m m' : Machine σ} {key : Value} {e : Entrant}

theorem size_pos (h : m.LinedUp g field) : 0 < m.registry.size := by
  obtain ⟨_, hu, _⟩ := h.root
  exact Registry.get?_eq_some_lt hu

/-- A placeholder leaves the tasks before it as they are, but for the root, which owns it. -/
theorem get?_seated_old (h : m.LinedUp g field) (key : Value) :
    (∀ i ≠ 0, i < m.registry.size → (m.seated key).registry.get? i = m.registry.get? i) ∧
      ∀ u, m.registry.get? 0 = some u → (m.seated key).registry.get? 0 =
        some (u.addChild m.registry.size) := by
  refine ⟨fun i h0 hi => ?_, fun u hu => ?_⟩
  · rw [Machine.get?_seated h.size_pos (Nat.ne_of_lt hi), if_neg h0]
  · rw [Machine.get?_seated h.size_pos (Nat.ne_of_lt h.size_pos), if_pos rfl, hu]
    rfl

/-- The placeholder of the next racer is over. -/
theorem snoc_prompt (h : m.LinedUp g field) (hprompt : e.prompt = true)
    (hreg : m'.registry = ((m.seated key).registry.modify m.registry.size fun task =>
      { task with running := false }).close m.registry.size e.output) :
    m'.LinedUp g (field ++ [⟨key, e, m.registry.size⟩]) := by
  obtain ⟨hold, hroot⟩ := h.get?_seated_old key
  have hidle := Registry.get?_modify_of_eq_some (fun task : Task => { task with running := false })
    (Machine.get?_seated_new key h.size_pos)
  refine h.snoc ?_ ?_ ?_ ?_ ?_
  · rw [hreg, Registry.size_close, Registry.size_modify, Machine.size_seated,
      Entrant.span, hprompt, if_pos rfl]
  · intro i h0 hi
    rw [hreg, Registry.get?_close_ne (Nat.ne_of_lt hi),
      Registry.get?_modify_ne (Nat.ne_of_lt hi), hold i h0 hi]
  · intro u hu
    rw [hreg, Registry.get?_close_ne (Nat.ne_of_lt h.size_pos),
      Registry.get?_modify_ne (Nat.ne_of_lt h.size_pos), hroot u hu]
  · intro hlate
    rw [hprompt] at hlate
    cases hlate
  · rw [hprompt, hreg]
    refine ⟨nofun,
      ⟨_, Registry.get?_close_self hidle e.output, ⟨rfl, rfl, rfl, rfl, rfl⟩, fun _ => ⟨rfl, rfl⟩,
      nofun⟩, fun hlate => ?_⟩
    rw [hprompt] at hlate
    cases hlate

/-- The placeholder of the next racer waits for its call. -/
theorem snoc_late (h : m.LinedUp g field) (hlate : e.prompt = false)
    (hreg : m'.registry =
      ((m.seated key).registry.create e.call.name e.wait (some m.registry.size) false none
      (some (.planned e.plan e.call))).1.modify m.registry.size fun task =>
        { task with running := false }.block (.onChild (m.seated key).registry.size)) :
    m'.LinedUp g (field ++ [⟨key, e, m.registry.size⟩]) := by
  obtain ⟨hold, hroot⟩ := h.get?_seated_old key
  have hsize := Machine.size_seated m key
  have hparent : ∀ p, some m.registry.size = some p → p < (m.seated key).registry.size := by
    rintro p ⟨⟩
    exact hsize ▸ Nat.lt_succ_self _
  have hpos := h.size_pos
  rw [hsize] at hreg
  refine h.snoc ?_ ?_ ?_ ?_ ?_
  · rw [hreg, Registry.size_modify, Registry.size_create, hsize, Entrant.span, hlate, if_neg nofun]
  · intro i h0 hi
    rw [hreg, Registry.get?_modify_ne (Nat.ne_of_lt hi), Registry.get?_create hparent, hsize,
      if_neg (by omega), if_neg (by simpa using Nat.ne_of_gt hi), hold i h0 hi]
  · intro u hu
    rw [hreg, Registry.get?_modify_ne (Nat.ne_of_lt hpos), Registry.get?_create hparent, hsize,
      if_neg (by omega), if_neg (by simpa using Nat.ne_of_gt hpos), hroot u hu]
  · intro _
    rw [hreg, Registry.finished_modify, Registry.finished_create, Machine.seated,
      Registry.finished_modify,
      Registry.finished_create]
  · have hplace := Registry.get?_modify_self (m.seated key |>.registry.create e.call.name e.wait
      (some m.registry.size) false none (some (.planned e.plan e.call))).1 m.registry.size
      fun task => { task with running := false }.block (.onChild (m.registry.size + 1))
    rw [Registry.get?_create hparent, hsize, if_neg (by omega), if_pos rfl,
      Machine.get?_seated_new key hpos,
      ← hreg] at hplace
    have hcall : m'.registry.get? (m.registry.size + 1) =
        some (Task.fresh (m.registry.size + 1) e.call.name
        e.wait (some m.registry.size) false none (some (.planned e.plan e.call))) := by
      rw [hreg, Registry.get?_modify_ne (by omega), Registry.get?_create hparent, hsize, if_pos rfl]
    rw [hlate]
    exact ⟨fun _ => hlate, ⟨_, hplace, ⟨rfl, rfl, rfl, rfl, rfl⟩, nofun,
      fun _ => ⟨rfl, rfl, rfl, rfl, rfl, rfl, rfl⟩⟩,
      fun _ => ⟨_, hcall, rfl, rfl, nofun, fun _ => .fresh ..⟩⟩

end Machine.LinedUp

namespace Config

variable {m : Machine σ} {c : Config σ} {below : List Frame} {g : Nat} {e : Entrant} {key : Value}

/-- A call is interpreted: it is answered with its output, or a task is made for it. -/
theorem step_interpret_call (stack : List Frame) (t : Nat) {s : σ} (hlimit : m.steps < o.stepLimit)
    (hplan : w.plan ({ m with steps := m.steps + 1 } : Machine σ).view e.call false m.outer =
      (.ok e.plan, s)) :
    step w o ⟨m, stack, .interpret t e.effect true⟩ =
      if e.prompt then ⟨{ m with steps := m.steps + 1, outer := s }, stack,
        .answer (.advance e.output)⟩
      else ⟨{ m with
          registry := (m.registry.create e.call.name e.wait (some t) false none
            (some (.planned e.plan e.call))).1
          steps := m.steps + 1
          outer := s }, stack, .answer (.block (.onChild m.registry.size))⟩ := by
  have htick := m.tick_of_lt hlimit
  have hs : step w o ⟨m, stack, .interpret t e.effect true⟩ =
      ofOutcome stack (({ m with steps := m.steps + 1 } : Machine σ).interpretCall w t e.call) := by
    show ofOutcome stack (m.interpret w o t e.effect true) = _
    rw [Machine.interpret_counted w o m t e.effect true (by rw [htick]), htick]
    rfl
  rw [hs]
  unfold Machine.interpretCall
  simp only [hplan]
  by_cases hnow : e.wait = .now
  · have hprompt : e.prompt = true := decide_eq_true hnow
    have hvalue := e.plain
    simp only [Entrant.plan, hnow, if_true, hprompt, Machine.produce, Bool.false_eq_true, if_false]
    cases hv : e.output with
    | generator g => exact (hvalue g hv).elim
    | _ => rfl
  · have hprompt : e.prompt = false := decide_eq_false hnow
    simp only [Entrant.plan, hnow, if_false, hprompt, Bool.false_eq_true, Machine.create_eq]
    rfl

/-- The placeholder of a call that need not wait is over. -/
theorem leads_member_prompt (below : List Frame) {p : Nat} {t : Task} {s : σ}
    (ht : m.registry.get? p = some t)
    (children : t.children = []) (entry : t.entry = none) (hlimit : m.steps < o.stepLimit)
    (hplan : w.plan ({ m with steps := m.steps + 1 } : Machine σ).view e.call false m.outer =
      (.ok e.plan, s))
    (hprompt : e.prompt = true) :
    Leads w o ⟨m, .member p :: below, .interpret p e.effect true⟩ []
      ⟨{ m with
          registry :=
            (m.registry.modify p fun task => { task with running := false }).close p e.output
          steps := m.steps + 1
          outer := s }, below, .done⟩ := by
  have hinterpret := step_interpret_call (.member p :: below) p hlimit hplan
  rw [hprompt, if_pos rfl] at hinterpret
  generalize hm' : ({ m with steps := m.steps + 1, outer := s } : Machine σ).modify p
    (fun task => { task with running := false }) = m'
  have hreg : m'.registry = m.registry.modify p fun task => { task with running := false } := by
    rw [← hm']
    rfl
  have hidle : m'.registry.get? p = some { t with running := false } := by
    rw [hreg]
    exact Registry.get?_modify_of_eq_some _ ht
  have hanswer : step w o ⟨{ m with steps := m.steps + 1, outer := s }, .member p :: below,
      .answer (.advance e.output)⟩ = ⟨m', below, .complete p e.output⟩ := by
    rw [← hm']
    rfl
  have hcomplete : step w o ⟨m', below, .complete p e.output⟩ =
      ⟨{ m' with registry := m'.registry.close p e.output }, below, .done⟩ := by
    have hlive : m'.registry.live { t with running := false } = [] := by
      simp [Registry.live, children]
    show halt (m'.complete o p e.output) _ = _
    rw [Machine.complete_leaf hidle hlive entry rfl]
    rfl
  rw [← hreg]
  refine .head rfl rfl hinterpret (.head rfl rfl hanswer (.one (Bool.and_false _) rfl ?_))
  rw [hcomplete, ← hm']
  rfl

/-- The placeholder of a call that has to wait waits for it. -/
theorem leads_member_late (below : List Frame) (p : Nat) {s : σ} (hlimit : m.steps < o.stepLimit)
    (hplan : w.plan ({ m with steps := m.steps + 1 } : Machine σ).view e.call false m.outer =
      (.ok e.plan, s))
    (hprompt : e.prompt = false) :
    ∃ m', Leads w o ⟨m, .member p :: below, .interpret p e.effect true⟩ [] ⟨m', below, .done⟩ ∧
      m'.registry = (m.registry.create e.call.name e.wait (some p) false none
        (some (.planned e.plan e.call))).1.modify p
          (fun task => { task with running := false }.block (.onChild m.registry.size)) ∧
      m'.steps = m.steps + 1 ∧ m'.outer = s := by
  have hinterpret := step_interpret_call (.member p :: below) p hlimit hplan
  rw [hprompt, if_neg nofun] at hinterpret
  generalize hm₁ : ({ m with
      registry :=
        (m.registry.create e.call.name e.wait (some p) false none (some (.planned e.plan e.call))).1
      steps := m.steps + 1
      outer := s } : Machine σ) = m₁ at hinterpret
  obtain ⟨m', hblocked, hreg, hsteps, houter⟩ :=
    leads_blocked (w := w) (o := o) m₁ below p (.onChild m.registry.size) (Or.inr rfl)
  rw [← hm₁] at hreg hsteps houter
  exact ⟨m', .head rfl rfl hinterpret hblocked, hreg, hsteps, houter⟩

/-- A member is interpreted: its placeholder is over, or waits. -/
theorem leads_member {keyed : Bool} {rest : List (Value × Entrant)} {field : List Racer} {s : σ}
    (unfinished : c.isFinal = false) (idle : c.starts = [])
    (hs : c.step w o =
      ofOutcome below (m.continueComposite (Racer.race keyed field ((key, e) :: rest))))
    (linedUp : m.LinedUp g field) (hlimit : m.steps < o.stepLimit)
    (hplan :
      w.plan ({ m.seated key with steps := m.steps + 1 } : Machine σ).view e.call false m.outer =
      (.ok e.plan, s)) :
    ∃ m', Leads w o c []
        ⟨m', .composite (Racer.race keyed (field ++ [⟨key, e, m.registry.size⟩]) rest) :: below,
          .done⟩ ∧
      m'.LinedUp g (field ++ [⟨key, e, m.registry.size⟩]) ∧
      m'.steps = m.steps + 1 ∧ m'.outer = s := by
  rw [Machine.continueComposite_race] at hs
  have hseated := Leads.one unfinished idle hs
  cases hprompt : e.prompt with
  | true =>
    have hmember := leads_member_prompt
      (.composite (Racer.race keyed (field ++ [⟨key, e, m.registry.size⟩]) rest) :: below)
      (Machine.get?_seated_new key linedUp.size_pos) rfl rfl hlimit hplan hprompt
    exact ⟨_, hseated.trans hmember, linedUp.snoc_prompt hprompt rfl, rfl, rfl⟩
  | false =>
    obtain ⟨m', hmember, hreg, hsteps, houter⟩ := leads_member_late (m := m.seated key)
      (.composite (Racer.race keyed (field ++ [⟨key, e, m.registry.size⟩]) rest) :: below)
        m.registry.size hlimit
      hplan hprompt
    exact ⟨m', hseated.trans hmember, linedUp.snoc_late hprompt hreg, hsteps, houter⟩

/-- **All members are interpreted**, one after the other. -/
theorem leads_members {keyed : Bool} {after : σ → Prop} {items : List (Value × Entrant)} :
    ∀ {field : List Racer} {m : Machine σ} {c : Config σ}, c.isFinal = false → c.starts = [] →
      c.step w o = ofOutcome below (m.continueComposite (Racer.race keyed field items)) →
      m.LinedUp g field →
      w.Schedules after (items.map (·.2)) m.outer → m.steps + items.length ≤ o.stepLimit →
      ∃ (m' : Machine σ) (c' : Config σ), Leads w o c [] c' ∧ c'.isFinal = false ∧ c'.starts = [] ∧
        c'.step w o = ofOutcome below (m'.concludeComposite
          (Racer.race keyed (field ++ Racer.lineUp items m.registry.size) [])) ∧
        m'.LinedUp g (field ++ Racer.lineUp items m.registry.size) ∧ after m'.outer ∧
        m'.steps = m.steps + items.length := by
  induction items with
  | nil =>
    intro field m c unfinished idle hs linedUp hafter _
    simp only [Racer.lineUp, List.append_nil]
    exact ⟨m, c, .refl c, unfinished, idle, hs, linedUp, hafter, rfl⟩
  | cons x items ih =>
    obtain ⟨key, e⟩ := x
    intro field m c unfinished idle hs linedUp hplans hlimit
    rw [List.length_cons] at hlimit
    obtain ⟨s, hplan, hplans⟩ :=
      hplans ({ m.seated key with steps := m.steps + 1 } : Machine σ).view
    obtain ⟨m₁, hleads, linedUp₁, hsteps, houter⟩ :=
      leads_member unfinished idle hs linedUp (by omega) hplan
    have hsize : m₁.registry.size = m.registry.size + e.span := by
      have hfield := congrArg List.length (show _ = _ from linedUp₁.tasks)
      have hsnoc := congrArg List.length (show _ = _ from linedUp.tasks.snoc key e)
      rw [List.length_range] at hfield hsnoc
      exact hfield.symm.trans hsnoc
    have hlimit₁ : m₁.steps + items.length ≤ o.stepLimit := by omega
    obtain ⟨m₂, c₂, hleads₂, hunfinished, hidle, hs₂, linedUp₂, hafter, hsteps₂⟩ :=
      ih (c := ⟨m₁, .composite _ :: below, .done⟩) rfl rfl rfl linedUp₁ (houter ▸ hplans) hlimit₁
    rw [hsize, List.append_assoc] at hs₂ linedUp₂
    exact ⟨m₂, c₂, hleads.trans hleads₂, hunfinished, hidle, hs₂, linedUp₂, hafter,
      by rw [hsteps₂, hsteps, List.length_cons]; omega⟩

end Config

def World.Returns (w : World σ) (g : Nat) (s : σ) : Prop :=
  ∀ view v, ∃ value s', w.resume view g (.send v) s = (.returned value, s')

/-- The generator `g` yields a race of the members, whose calls are planned as the entrants say, and
then returns. -/
def World.Races (w : World σ) (g : Nat) (members : Members) (entrants : List Entrant) (s : σ) :
    Prop :=
  ∀ view, ∃ s', w.resume view g (.send .null) s = (.yielded (.effect (.race members)), s') ∧
    w.Schedules (w.Returns g) entrants s'

namespace Config

/-- The saga is asked first, and its members are interpreted. -/
theorem leads_linedUp {g : Nat} {members : Members} {items : List (Value × Entrant)}
    {outer : σ} (name : String)
    (races : w.Races g members (items.map (·.2)) outer)
    (entered : Machine.memberItems members = items.map fun x => (x.1, x.2.effect))
    (hlimit : items.length < o.stepLimit) :
    ∃ (m : Machine σ) (c : Config σ), Leads w o (launched outer name g) [] c ∧ c.isFinal = false ∧
      c.starts = [] ∧
      c.step w o = ofOutcome [.driving 0, .batch [], .loop 0]
        (m.concludeComposite (Racer.race (Machine.isKeyed members) (Racer.lineUp items 1) [])) ∧
      m.LinedUp g (Racer.lineUp items 1) ∧ w.Returns g m.outer ∧ m.steps = items.length + 1 := by
  obtain ⟨m, hsends, ⟨u, hu, hco, hundone, hale⟩, hsize, _, hfinished, hsteps, houter⟩ :=
    step_launched w o outer name g
  obtain ⟨s, hresume, hplans⟩ := races m.view
  have hasked : (launched outer name g).step w o =
      ⟨m.holding 0 ⟨[g], true⟩ s, [.driving 0, .batch [], .loop 0],
      .interpret 0 (.effect (.race members)) false⟩ :=
    hsends.trans (resume_yields hu hco (Or.inr rfl) (houter.symm ▸ hresume))
  generalize hm₁ : m.holding 0 ⟨[g], true⟩ s = m₁ at hasked
  have hsteps₁ : m₁.steps = 0 := by rw [← hm₁]; exact hsteps
  have htick := m₁.tick_of_lt (o := o) (by omega)
  have hinterpret : step w o
      ⟨m₁, [.driving 0, .batch [], .loop 0], .interpret 0 (.effect (.race members)) false⟩ =
      ofOutcome [.driving 0, .batch [], .loop 0]
        (Machine.continueComposite { m₁ with steps := m₁.steps + 1 }
        (Racer.race (Machine.isKeyed members) [] items)) := by
    show ofOutcome _ (m₁.interpret w o 0 _ false) = _
    rw [Machine.interpret_counted w o m₁ 0 _ false (by rw [htick]), htick]
    show ofOutcome _ (Machine.continueComposite _ ⟨0, true, Machine.isKeyed members, [],
      Machine.memberItems members⟩) = _
    rw [entered]
    rfl
  have hsize₁ : m₁.registry.size = 1 := by
    rw [← hm₁]
    exact (Registry.size_modify ..).trans hsize
  have linedUp : Machine.LinedUp g [] { m₁ with steps := m₁.steps + 1 } :=
    { stands := nofun
      tasks := by
        show Racer.Field [] m₁.registry.size
        rw [hsize₁]
        exact .nil
      root := by
        rw [← hm₁]
        exact ⟨_, Machine.get?_holding hu _ _, rfl, hundone, hale⟩
      finished := by
        rw [← hm₁]
        exact fun _ => hfinished }
  have houter₁ : m₁.outer = s := by rw [← hm₁]; rfl
  obtain ⟨m₂, c, hleads, hunfinished, hidle, hs, linedUp₂, hafter, hsteps₂⟩ :=
    leads_members rfl rfl hinterpret linedUp (houter₁.symm ▸ hplans)
      (show m₁.steps + 1 + items.length ≤ o.stepLimit by omega)
  rw [List.nil_append, show ({ m₁ with steps := m₁.steps + 1 } : Machine σ).registry.size =
    1 from hsize₁]
    at hs linedUp₂
  refine ⟨m₂, c, (Leads.one rfl rfl hasked).trans hleads, hunfinished, hidle,
    hs, linedUp₂, hafter, ?_⟩
  rw [hsteps₂]
  show m₁.steps + 1 + items.length = _
  omega

end Config

end Rehearsal
