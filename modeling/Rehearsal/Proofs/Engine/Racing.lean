import Rehearsal.Proofs.Engine.Assembly
import Rehearsal.Proofs.Engine.Racers
import Rehearsal.Proofs.Task.Order
import Rehearsal.Proofs.Task.Subtree

/-!
# How a race is decided

Where some call need not wait, the race is decided when all members have been looked at. Otherwise
the root waits, the next batch is the calls that come soonest, and two rounds later it is told of
their placeholders. Either way those come soonest whose placeholders are over then, and all the
others are let go.
-/
namespace Rehearsal

variable {σ : Type} {w : World σ} {o : RunOptions} {begun : Nat → Prop}

/-! ### Letting go -/

namespace Registry

variable {r : Registry} {i : Nat}

theorem get?_letGo (r : Registry) (a i : Nat) :
    (r.letGo a).get? i =
      (r.get? i).map (Task.flag (decide (i ∈ r.subtree a)) (decide (i = a))) := by
  rw [letGo, get?_modify, get?_cancelTree]
  by_cases hi : i = a
  · cases hr : r.get? i <;> simp [hi, Task.flag]
  · rw [if_neg hi]
    simp [hi]

/-- Who is listed is abandoned, and what they own is cancelled. -/
theorem get?_letGoAll (r : Registry) (ids : List Nat) (i : Nat) :
    (ids.foldl letGo r).get? i =
      (r.get? i).map (Task.flag (decide (i ∈ r.cancelledBy ids)) (decide (i ∈ ids))) := by
  unfold cancelledBy
  induction ids generalizing r with
  | nil =>
    cases hi : r.get? i with
    | none => simp [hi]
    | some t => simp [hi, Task.flag]
  | cons a ids ih =>
    have hsame : (r.letGo a).subtree = r.subtree := funext (letGo_flagged r a).subtree_eq
    rw [List.foldl_cons, ih, get?_letGo, hsame, Option.map_map]
    congr 1
    funext t
    simp only [Function.comp_apply, Task.flag_flag, List.flatMap_cons,
      List.mem_append, List.mem_cons,
      Bool.decide_or]

/-- Whoever is over is passed over. -/
theorem foldl_letGo_undone (r : Registry) (ids : List Nat) :
    ids.foldl (fun r i => if r.isDone i then r else r.letGo i) r =
      (ids.filter fun i => !r.isDone i).foldl letGo r := by
  induction ids generalizing r with
  | nil => rfl
  | cons a ids ih =>
    rw [List.foldl_cons, List.filter_cons, ih]
    cases hd : r.isDone a with
    | true => rfl
    | false =>
      have hsame : ∀ i, (r.letGo a).isDone i = r.isDone i := fun i => by
        unfold isDone
        rw [get?_letGo]
        cases r.get? i <;> rfl
      simp only [Bool.false_eq_true, if_false, Bool.not_false, if_true, List.foldl_cons, hsame]

/-- The first task of a race that a round tells of has won, and the others that are not over are let
go. -/
theorem settle_of_winner {r' : Registry} {t winner : Nat} {i : Interruption}
    {ids : List Nat} (hk : i.kind = .race)
    (hw : i.pending.waitingOn.find? ids.contains = some winner)
    (hr : ((i.pending.waitingOn.filter fun l => l != winner).filter fun i => !r.isDone i).foldl
      letGo r = r') :
    r.settle t i ids = .ok (true,
      { i with
        pending := i.pending.mapSlots fun slot =>
          if slot.awaited? == some winner then .completed (r'.resultOf winner) else .value .null
        dependencies := [winner]
        answer := some (.value (i.pending.mapSlots fun slot => if slot.awaited? == some winner
          then .completed (r'.resultOf winner) else .value .null).unwrap) }, r') := by
  simp only [settle, hk, hw, foldl_letGo_undone, hr]
  rfl

end Registry

/-! Flags do not change where a task stands. -/

namespace Task

variable {t : Task}

theorem Came.flag {v : Value} (h : t.Came v) (c l : Bool) :
    (t.flag c l).Came v := ⟨h.done, h.result⟩

theorem AwaitsChild.flag {d : Nat} (h : t.AwaitsChild d) (c l : Bool) :
    (t.flag c l).AwaitsChild d :=
  ⟨h.interruption, h.children, h.wait, h.entry, h.coroutine, h.running, h.done⟩

theorem Planned.flag {plan : CallPlan} {call : Call} (h : t.Planned plan call) (c l : Bool) :
    (t.flag c l).Planned plan call :=
  ⟨h.entry, h.wait, h.children, h.interruption, h.running, h.done⟩

end Task

namespace Racer

variable {field : List Racer} {q : Racer} {r : Registry} {n : Nat} {made ended lost : Bool}

/-- A placeholder that waits owns its call, and nothing besides. -/
theorem Stands.subtree_place (h : q.Stands false false lost r) : r.subtree q.place = q.tasks := by
  have hlate := h.late rfl
  obtain ⟨t, ht, _, _, awaits⟩ := h.place
  obtain ⟨u, hu, _, _, _, planned⟩ := h.call hlate
  obtain ⟨depth, hsize⟩ : ∃ depth, r.size = depth + 1 :=
    Nat.exists_eq_succ_of_ne_zero
      (Nat.ne_of_gt (Nat.lt_of_le_of_lt (Nat.zero_le _) (Registry.get?_eq_some_lt ht)))
  unfold Registry.subtree tasks Entrant.span
  rw [hsize, hlate]
  simp only [Registry.subtreeTo, ht, (awaits rfl).children, List.flatMap_cons, List.flatMap_nil, hu,
    (planned rfl).children, List.append_nil]
  rfl

/-- **Whoever waits has lost once it is let go**, and nobody else has. -/
theorem Field.letGo {made ended : Racer → Bool} (tasks : Field field n)
    (h : ∀ q ∈ field, q.Stands (made q) (ended q) false r)
    (hmade : ∀ q ∈ field, ended q = false → made q = false) :
    ∀ q ∈ field, q.Stands (made q) (ended q) (!ended q)
      (((field.filter fun q => !ended q).map (·.place)).foldl Registry.letGo r) := by
  intro q hq
  have hmem : ∀ {q'}, q' ∈ field.filter (fun q => !ended q) ↔ q' ∈ field ∧ ended q' = false := by
    intro q'
    rw [List.mem_filter, Bool.not_eq_true']
  have hplace : ∀ q' ∈ field,
      (q'.place ∈ (field.filter fun q => !ended q).map (·.place) ↔ ended q' = false) := by
    intro q' hq'
    rw [List.mem_map]
    refine ⟨?_, fun he => ⟨q', hmem.mpr ⟨hq', he⟩, rfl⟩⟩
    rintro ⟨q'', hq'', he⟩
    obtain ⟨hq'', hended⟩ := hmem.mp hq''
    rwa [tasks.unique hq'' hq' q''.place_mem_tasks (he ▸ q'.place_mem_tasks)] at hended
  have hcancelled :
      ∀ i ∈ q.tasks, (i ∈ r.cancelledBy ((field.filter fun q => !ended q).map (·.place)) ↔
      ended q = false) := by
    intro i hi
    have hsub : ∀ q' ∈ field, ended q' = false → r.subtree q'.place = q'.tasks := by
      intro q' hq' he
      have hstands := h q' hq'
      rw [he, hmade q' hq' he] at hstands
      exact hstands.subtree_place
    unfold Registry.cancelledBy
    rw [List.mem_flatMap]
    constructor
    · rintro ⟨_, ha, hsubtree⟩
      obtain ⟨q', hq', rfl⟩ := List.mem_map.mp ha
      obtain ⟨hq', he⟩ := hmem.mp hq'
      rw [hsub q' hq' he] at hsubtree
      rwa [tasks.unique hq' hq hsubtree hi] at he
    · exact fun he => ⟨q.place, (hplace q hq).mpr he, by rwa [hsub q hq he]⟩
  obtain ⟨hlate, ⟨t, ht, holds, came, awaits⟩, hcall⟩ := h q hq
  refine ⟨hlate, ⟨t.flag (!ended q) (!ended q), ?_, ?_, ?_, ?_⟩, fun hl => ?_⟩
  · rw [Registry.get?_letGoAll, ht, Option.map_some]
    refine congrArg some (congrArg₂ (Task.flag · · t) ?_ ?_)
    · rw [Bool.eq_iff_iff, decide_eq_true_iff, hcancelled _ q.place_mem_tasks, Bool.not_eq_true']
    · rw [Bool.eq_iff_iff, decide_eq_true_iff, hplace q hq, Bool.not_eq_true']
  · refine ⟨holds.name, holds.parent, holds.hale, ?_, ?_⟩
    · show (t.cancelled || !ended q) = _
      rw [holds.cancelled, Bool.false_or]
    · show (t.abandoned || !ended q) = _
      rw [holds.abandoned, Bool.false_or]
  · exact fun he => (came he).flag _ _
  · exact fun he => (awaits he).flag _ _
  · obtain ⟨u, hu, parent, hale, came, planned⟩ := hcall hl
    refine ⟨_, (Registry.get?_letGoAll ..).trans (congrArg (Option.map _) hu), parent, hale,
      fun hm => (came hm).flag _ _, fun hm => (planned hm).flag _ _⟩

/-! ### Who comes soonest -/

/-- No call of the field comes sooner. -/
def soonest (field : List Racer) (q : Racer) :
    Bool := field.all fun q' => q.entrant.wait.le q'.entrant.wait

theorem soonest_iff :
    q.soonest field = true ↔ ∀ q' ∈ field, q.entrant.wait.le q'.entrant.wait = true :=
  List.all_eq_true

/-- Where somebody need not wait, those that come soonest are those that need not wait. -/
theorem soonest_eq_prompt (h : ∃ q' ∈ field, q'.entrant.prompt = true) :
    q.soonest field = q.entrant.prompt := by
  obtain ⟨q', hq', hprompt⟩ := h
  have hnow : q'.entrant.wait = .now := of_decide_eq_true hprompt
  rw [Bool.eq_iff_iff, soonest_iff]
  constructor
  · intro h
    have hle := h q' hq'
    rw [hnow] at hle
    cases hw : q.entrant.wait with
    | now => exact decide_eq_true hw
    | tier tier => exact (q.entrant.untiered tier hw).elim
    | tick _ => simp [hw, Wait.le, Wait.key] at hle
    | last => simp [hw, Wait.le, Wait.key] at hle
  · intro h q'' _
    rw [show q.entrant.wait = .now from of_decide_eq_true h]
    cases q''.entrant.wait <;> simp [Wait.le, Wait.key]

/-- Somebody comes soonest. -/
theorem exists_soonest (h : field ≠ []) : ∃ q ∈ field, q.soonest field = true := by
  induction field with
  | nil => exact (h rfl).elim
  | cons q rest ih =>
    by_cases hrest : rest = []
    · subst hrest
      exact ⟨q, List.mem_singleton_self q, soonest_iff.mpr fun q' hq' => by
        rw [List.mem_singleton.mp hq']
        exact Wait.le_refl _⟩
    · obtain ⟨q', hq', hsoonest⟩ := ih hrest
      have hle := soonest_iff.mp hsoonest
      rcases Wait.le_total q.entrant.wait q'.entrant.wait with htotal | htotal
      · refine ⟨q, List.mem_cons_self .., soonest_iff.mpr fun q'' hq'' => ?_⟩
        rcases List.mem_cons.mp hq'' with rfl | hq''
        · exact Wait.le_refl _
        · exact Wait.le_trans htotal (hle q'' hq'')
      · refine ⟨q', List.mem_cons_of_mem _ hq', soonest_iff.mpr fun q'' hq'' => ?_⟩
        rcases List.mem_cons.mp hq'' with rfl | hq''
        · exact htotal
        · exact hle q'' hq''

end Racer

/-! ### The end of the race -/

/-- A race comes to this once its slots are replaced. -/
theorem Composite.unwrap_mapSlots_shape (k : Composite) (f : Pending → Pending) :
    (k.shape.mapSlots f).unwrap =
      Assembly.collected k.keyed (k.made.map fun e => (e.1, (f (.task e.2)).slotValue)) := by
  unfold Composite.shape Assembly.collected
  split
  · refine congrArg (fun es => Value.dict ⟨false, es⟩) ?_
    rw [List.map_map, List.map_map]
    rfl
  · refine congrArg Value.list ?_
    rw [List.map_map, List.map_map, List.map_map, List.map_map]
    rfl

theorem Composite.mapSlots_id_shape (k : Composite) : k.shape.mapSlots id = k.shape := by
  unfold Composite.shape
  split
  · exact congrArg (Pending.keyed false) (List.map_id _)
  · exact congrArg Pending.list (List.map_id _)

namespace Racer

variable {field : List Racer} {q : Racer} {r : Registry} {n : Nat}

/-- What the saga is sent: the outputs of those that win. -/
def prize (keyed : Bool) (wins : Racer → Bool) (field : List Racer) : Value :=
  Assembly.collected keyed (field.map fun q => (q.key, if wins q then q.entrant.output else .null))

theorem unwrap_mapSlots_race (keyed : Bool) (field : List Racer) (f : Pending → Pending) :
    ((race keyed field []).shape.mapSlots f).unwrap =
      Assembly.collected keyed (field.map fun q => (q.key, (f (.task q.place)).slotValue)) := by
  rw [Composite.unwrap_mapSlots_shape]
  refine congrArg (Assembly.collected keyed) ?_
  simp only [race, List.map_map]
  rfl

theorem waitingOn_race (keyed : Bool) (field : List Racer) :
    (race keyed field []).shape.waitingOn = field.map (·.place) := by
  rw [Composite.waitingOn_shape]
  simp only [race, List.map_map]
  rfl

end Racer

namespace Machine.LinedUp

variable {g : Nat} {field : List Racer} {m : Machine σ}

/-- No member has failed. -/
theorem firstError?_eq_none (h : m.LinedUp g field) :
    m.firstError? (field.map (·.place)) = none := by
  refine List.findSome?_eq_none_iff.mpr fun p hp => ?_
  obtain ⟨q, hq, rfl⟩ := List.mem_map.mp hp
  obtain ⟨t, ht, holds, _⟩ := (h.stands q hq).place
  show (m.registry.get? q.place).bind Task.error = none
  rw [ht]
  exact holds.hale

theorem waitingOn (h : m.LinedUp g field) (keyed : Bool) :
    (m.registry.settleFinished (Racer.race keyed field []).shape).waitingOn =
      (field.filter fun q => !q.entrant.prompt).map (·.place) := by
  unfold Pending.waitingOn
  rw [Registry.slots_settleFinished, Composite.slots_shape]
  simp only [Racer.race, List.map_map]
  have hslot : ∀ q ∈ field, (m.registry.settleSlot (.task q.place)).awaited? =
      if q.entrant.prompt then none else some q.place := by
    intro q hq
    have hd := (h.stands q hq).isDone_place
    cases hprompt : q.entrant.prompt with
    | true => rw [Registry.settleSlot_of_done (hd.trans hprompt)]; rfl
    | false => rw [Registry.settleSlot_of_not_done (hd.trans hprompt)]; rfl
  rw [List.filterMap_map]
  clear h
  induction field with
  | nil => rfl
  | cons q field ih =>
    have hq := hslot q (List.mem_cons_self ..)
    have ih := ih fun q hq => hslot q (List.mem_cons_of_mem _ hq)
    rw [List.filterMap_cons, List.filter_cons, ih]
    simp only [Function.comp_apply, hq]
    cases q.entrant.prompt <;> rfl

/-- **The end of the race** when all members have been looked at: where somebody need not wait those
have won and all the others are let go, and otherwise the root waits. -/
theorem concludeComposite_eq (h : m.LinedUp g field) (keyed : Bool) (hne : field ≠ []) :
    m.concludeComposite (Racer.race keyed field []) =
      if field.any (·.entrant.prompt) then
        .advance { m with
          registry := ((field.filter fun q => !q.entrant.prompt).map (·.place)).foldl
            Registry.letGo m.registry }
          (Racer.prize keyed (·.entrant.prompt) field)
      else .answer m
          (.block ⟨.race, (Racer.race keyed field []).shape, field.map (·.place), none⟩) := by
  have hmade : (Racer.race keyed field []).made.map (·.2) = field.map (·.place) := by
    simp only [Racer.race, List.map_map]
    rfl
  have hunwrap : (m.registry.settleFinished (Racer.race keyed field []).shape).unwrap =
      Racer.prize keyed (·.entrant.prompt) field := by
    refine (Racer.unwrap_mapSlots_race ..).trans (congrArg (Assembly.collected keyed) ?_)
    refine List.map_congr_left fun q hq => congrArg (q.key, ·) ?_
    have hstands := h.stands q hq
    cases hprompt : q.entrant.prompt with
    | true =>
      rw [hprompt] at hstands
      rw [Registry.slotValue_settleSlot hstands.isDone_place,
        hstands.resultOf_place, if_pos hprompt]
    | false =>
      rw [hprompt] at hstands
      rw [Registry.settleSlot_of_not_done hstands.isDone_place, if_neg (by simp [hprompt])]
      rfl
  rw [Machine.concludeComposite_eq, hmade, h.firstError?_eq_none]
  dsimp only
  rw [hunwrap, h.waitingOn keyed, List.length_map, List.length_map]
  cases hany : field.any (·.entrant.prompt) with
  | true =>
    obtain ⟨q, hq, hprompt⟩ := List.any_eq_true.mp hany
    have hless : (field.filter fun q => !q.entrant.prompt).length < field.length :=
      List.length_filter_lt_length_iff_exists.mpr ⟨q, hq, by simp [hprompt]⟩
    simp [Racer.race, hless]
  | false =>
    have hall : field.filter (fun q => !q.entrant.prompt) = field := by
      refine List.filter_eq_self.mpr fun q hq => ?_
      simpa using List.any_eq_false.mp hany q hq
    have hsame : m.registry.settleFinished (Racer.race keyed field []).shape =
        (Racer.race keyed field []).shape := by
      refine Eq.trans (Pending.mapSlots_congr fun slot hslot => ?_) (Composite.mapSlots_id_shape _)
      rw [Composite.slots_shape, hmade, List.map_map] at hslot
      obtain ⟨q, hq, rfl⟩ := List.mem_map.mp hslot
      have hprompt : q.entrant.prompt = false := by simpa using List.any_eq_false.mp hany q hq
      exact Registry.settleSlot_of_not_done ((h.stands q hq).isDone_place.trans hprompt)
    rw [hsame, hall]
    have hrace : (Racer.race keyed field []).isRace = true := rfl
    simp [hrace, hne]

end Machine.LinedUp

/-! ### While the root waits -/

/-- The root waits for the race of the field. -/
structure Task.Races (g : Nat) (keyed : Bool) (field : List Racer) (t : Task) :
    Prop extends Task.Goes g t where
  interruption :
    t.interruption = some ⟨.race, (Racer.race keyed field []).shape, field.map (·.place), none⟩
  wait : t.wait = .tier .race
  idle : t.running = false

/-- The root waits for the race; the calls of these racers have been `made`, and the placeholders of
those are over. -/
structure Machine.Raced (g : Nat) (keyed : Bool) (field : List Racer)
    (made ended : Racer → Bool) (m : Machine σ) :
    Prop where
  stands : ∀ q ∈ field, q.Stands (made q) (ended q) false m.registry
  tasks : Racer.Field field m.registry.size
  root : ∃ u, m.registry.get? 0 = some u ∧ u.Races g keyed field

namespace Machine.Raced

variable {g : Nat} {keyed : Bool} {field : List Racer}
    {made ended made' ended' : Racer → Bool} {m m' : Machine σ}
  {q : Racer} {i : Nat}

theorem of_same (h : m.Raced g keyed field made ended) (hsize : m'.registry.size = m.registry.size)
    (hget : ∀ i ≠ 0, m'.registry.get? i = m.registry.get? i)
    (hroot : ∃ u, m'.registry.get? 0 = some u ∧ u.Races g keyed field)
    (hmade : ∀ q ∈ field, made' q = made q) (hended : ∀ q ∈ field, ended' q = ended q) :
    m'.Raced g keyed field made' ended' where
  stands := fun q hq => by
    rw [hmade q hq, hended q hq]
    exact (h.stands q hq).congr fun i hi => hget i (Nat.ne_of_gt (h.tasks.range hq hi).1)
  tasks := hsize ▸ h.tasks
  root := hroot

/-- A task of a racer is over. -/
theorem close (h : m.Raced g keyed field made ended) (hq : q ∈ field) (hi : i ∈ q.tasks)
    (handled : Option Exn)
    (hstands : q.Stands (made' q) (ended' q) false (m.registry.close i q.entrant.output))
    (hmade : ∀ q' ∈ field, i ∉ q'.tasks → made' q' = made q')
    (hended : ∀ q' ∈ field, i ∉ q'.tasks → ended' q' = ended q') :
    Machine.Raced g keyed field made' ended'
      { m with registry := m.registry.close i q.entrant.output, handled } where
  stands := by
    intro q' hq'
    by_cases hmem : i ∈ q'.tasks
    · exact h.tasks.unique hq hq' hi hmem ▸ hstands
    · rw [hmade q' hq' hmem, hended q' hq' hmem]
      refine (h.stands q' hq').congr fun j hj => Registry.get?_close_ne ?_ _
      rintro rfl
      exact hmem hj
  tasks := by
    show Racer.Field field (Registry.size (Registry.close _ _ _))
    rw [Registry.size_close]
    exact h.tasks
  root := by
    obtain ⟨u, hu, hraces⟩ := h.root
    exact ⟨u, (Registry.get?_close_ne (Nat.ne_of_lt (h.tasks.range hq hi).1) _).trans hu, hraces⟩

/-- The call of a racer can be picked. -/
theorem call_of_mem (h : m.Raced g keyed field (fun _ => false) fun _ => false)
    (forest : m.registry.Forest)
    (hq : q ∈ field) : ∃ u, m.registry.get? (q.place + 1) = some u ∧ u.id = q.place + 1 ∧
      u.wait = q.entrant.wait ∧ u.done = false ∧ u.isSelectable = true := by
  have hstands := h.stands q hq
  obtain ⟨u, hu, _, _, _, planned⟩ := hstands.call (hstands.late rfl)
  have planned := planned rfl
  exact ⟨u, hu, forest.id_eq hu, planned.wait, planned.done, planned.isSelectable⟩

/-- Nobody but the calls can be picked. -/
theorem mem_selectable {t : Task} (h : m.Raced g keyed field (fun _ => false) fun _ => false)
    (forest : m.registry.Forest) :
    t ∈ m.registry.pendingTasks.filter (·.isSelectable) ↔
      ∃ q ∈ field, m.registry.get? (q.place + 1) = some t := by
  rw [List.mem_filter, forest.mem_pendingTasks]
  constructor
  · rintro ⟨⟨j, hj, hopen⟩, hsel⟩
    rcases Nat.eq_zero_or_pos j with rfl | hpos
    · obtain ⟨u, hu, hraces⟩ := h.root
      obtain rfl := Option.some.inj (hj.symm.trans hu)
      simp [Task.isSelectable, Task.isBlocked, hraces.interruption, Interruption.resolved] at hsel
    · obtain ⟨q, hq, hmem⟩ := h.tasks.cover hpos (Registry.get?_eq_some_lt hj)
      rcases Racer.mem_tasks.mp hmem with rfl | ⟨_, rfl⟩
      · obtain ⟨u, hu, _, _, awaits⟩ := (h.stands q hq).place
        obtain rfl := Option.some.inj (hj.symm.trans hu)
        rw [(awaits rfl).isSelectable] at hsel
        cases hsel
      · exact ⟨q, hq, hj⟩
  · rintro ⟨q, hq, hj⟩
    obtain ⟨u, hu, _, _, hopen, hsel⟩ := h.call_of_mem forest hq
    obtain rfl := Option.some.inj (hj.symm.trans hu)
    exact ⟨⟨_, hu, hopen⟩, hsel⟩

/-- Those whose calls have not been made are picked together as soon as it is their turn. -/
theorem mem_batch (h : m.Raced g keyed field (fun _ => false) fun _ => false)
    (forest : m.registry.Forest) :
    i ∈ (selectReadyBatch m.registry.pendingTasks).map (·.id) ↔
      ∃ q ∈ field, q.soonest field = true ∧ i = q.place + 1 := by
  have hwait : ∀ {t}, t ∈ m.registry.pendingTasks.filter (·.isSelectable) →
      ∃ q ∈ field, t.id = q.place + 1 ∧
      t.wait = q.entrant.wait := by
    intro t ht
    obtain ⟨q, hq, hj⟩ := (h.mem_selectable forest).mp ht
    obtain ⟨u, hu, hid, hw, _⟩ := h.call_of_mem forest hq
    obtain rfl := Option.some.inj (hj.symm.trans hu)
    exact ⟨q, hq, hid, hw⟩
  rw [selectReadyBatch_eq, List.mem_map]
  · constructor
    · rintro ⟨t, ht, rfl⟩
      obtain ⟨ht, hsoonest⟩ := List.mem_filter.mp ht
      obtain ⟨q, hq, hid, hw⟩ := hwait ht
      refine ⟨q, hq, Racer.soonest_iff.mpr fun q' hq' => ?_, hid⟩
      obtain ⟨u, hu, _, hw', _⟩ := h.call_of_mem forest hq'
      rw [← hw, ← hw']
      exact Task.soonestOf_iff.mp hsoonest u ((h.mem_selectable forest).mpr ⟨q', hq', hu⟩)
    · rintro ⟨q, hq, hsoonest, rfl⟩
      obtain ⟨u, hu, hid, hw, _⟩ := h.call_of_mem forest hq
      refine ⟨u, List.mem_filter.mpr ⟨(h.mem_selectable forest).mpr ⟨q, hq, hu⟩,
        Task.soonestOf_iff.mpr fun t ht => ?_⟩, hid⟩
      obtain ⟨q', hq', _, hw'⟩ := hwait ht
      rw [hw, hw']
      exact Racer.soonest_iff.mp hsoonest q' hq'
  · intro t ht
    obtain ⟨q, hq, _, hw⟩ := hwait ht
    rw [hw]
    exact Wait.isNow_eq_false (of_decide_eq_false ((h.stands q hq).late rfl)) q.entrant.untiered

end Machine.Raced

namespace Config

variable {g : Nat} {keyed : Bool} {field : List Racer} {m : Machine σ}

/-- The configuration is sound, and a run from it is not given up over a trace. -/
structure Steady (w : World σ) (o : RunOptions) (c : Config σ) : Prop where
  sound : ∃ begun, c.Sound begun
  traceable : c.Traceable w o

theorem Steady.forest {c : Config σ} (h : c.Steady w o) : c.machine.registry.Forest := by
  obtain ⟨_, hc⟩ := h.sound
  exact hc.forest

theorem Leads.steady {c c' : Config σ} {ids : List Nat}
    (h : Leads w o c ids c') (hc : c.Steady w o) :
    c'.Steady w o := by
  obtain ⟨n, rfl, _⟩ := h.exists_run hc.traceable
  obtain ⟨_, hsound⟩ := hc.sound
  obtain ⟨begun', _, hc'⟩ := sound_run w o hsound n
  exact ⟨⟨begun', hc'⟩, hc.traceable.run n⟩

/-- The calls that come soonest are made. -/
theorem leads_batch_of_racers {rest : List Nat} :
    ∀ {m : Machine σ}, Steady w o ⟨m, [.batch rest, .loop 0], .done⟩ →
      m.Raced g keyed field (fun q => q.soonest field && !rest.contains (q.place + 1))
        (fun _ => false) →
      rest.Nodup → (∀ i ∈ rest, ∃ q ∈ field, q.soonest field = true ∧ i = q.place + 1) →
      ∃ m', Leads w o ⟨m, [.batch rest, .loop 0], .done⟩ rest ⟨m', [.batch [], .loop 0], .done⟩ ∧
        m'.Raced g keyed field (·.soonest field) (fun _ => false) ∧
        m'.registry.finished = m.registry.finished ++ rest ∧ m'.steps = m.steps ∧
        m'.outer = m.outer := by
  induction rest with
  | nil =>
    intro m _ raced _ _
    exact ⟨m, .refl _, by simpa using raced, (List.append_nil _).symm, rfl, rfl⟩
  | cons t rest ih =>
    intro m hc raced hnodup hrest
    obtain ⟨q, hq, hsoonest, rfl⟩ := hrest t (List.mem_cons_self ..)
    obtain ⟨hout, hnodup⟩ := List.nodup_cons.mp hnodup
    have hstands := raced.stands q hq
    have hlate := hstands.late rfl
    obtain ⟨u, hu, parent, hale, _, planned⟩ := hstands.call hlate
    have planned := planned (by simp)
    have hmakes : Machine.Makes w
        (({ m with handled := none } : Machine σ).modify
          (q.place + 1) fun task => { task with entry := none })
        q.entrant.plan q.entrant.call q.entrant.output m.outer := ⟨rfl, q.entrant.plain⟩
    have hleads : Leads w o ⟨m, [.batch ((q.place + 1) :: rest), .loop 0], .done⟩ [q.place + 1]
        ⟨{ m with registry := m.registry.close (q.place + 1) q.entrant.output, handled := none },
          [.batch rest, .loop 0], .done⟩ := leads_batch_cons hu planned hmakes
    have hpending : q.place + 1 ∈ m.registry.pending :=
      hc.forest.mem_pending.mpr ⟨u, hu, planned.done⟩
    have hmem : q.place + 1 ∈ q.tasks := Racer.mem_tasks.mpr (Or.inr ⟨hlate, rfl⟩)
    have hstands' : q.Stands (q.soonest field && !rest.contains (q.place + 1)) false false
        (m.registry.close (q.place + 1) q.entrant.output) := by
      obtain ⟨t, ht, holds, _, awaits⟩ := hstands.place
      have hmade : (q.soonest field && !rest.contains (q.place + 1)) = true := by
        simp [hsoonest, hout]
      rw [hmade]
      exact ⟨fun _ => hlate,
        ⟨t, (Registry.get?_close_ne (Nat.ne_of_lt (Nat.lt_succ_self _)) _).trans ht, holds,
        nofun, awaits⟩,
        fun _ => ⟨_, Registry.get?_close_self hu _, parent, hale, fun _ => ⟨rfl, rfl⟩, nofun⟩⟩
    have hothers : ∀ q' ∈ field, q.place + 1 ∉ q'.tasks →
        (q'.soonest field && !rest.contains (q'.place + 1)) =
        (q'.soonest field && !((q.place + 1) :: rest).contains (q'.place + 1)) := by
      intro q' hq' hnot
      have hne : q'.place ≠ q.place := fun he =>
        hnot (he ▸ Racer.mem_tasks.mpr (Or.inr ⟨(raced.stands q' hq').late rfl, rfl⟩))
      simp [hne]
    obtain ⟨m', hleads', raced', hfinished, hsteps, houter⟩ := ih (hleads.steady hc)
      (raced.close hq hmem none hstands' hothers fun _ _ _ => rfl) hnodup
      fun i hi => hrest i (List.mem_cons_of_mem _ hi)
    refine ⟨m', hleads.trans hleads', raced', ?_, hsteps, houter⟩
    rw [hfinished]
    show Registry.finished (Registry.close _ _ _) ++ _ = _
    rw [Registry.finished_close hpending, List.append_assoc]
    rfl

/-- A round passes over all but the placeholders whose calls it tells of. -/
theorem step_round_passed {ids rest : List Nat} {t : Nat} {q : Racer}
    (hids : ∀ q ∈ field, (q.place + 1 ∈ ids ↔ q.soonest field = true))
    (raced : m.Raced g keyed field (·.soonest field) fun q => q.soonest field &&
      !(t :: rest).contains q.place)
    (hq : q ∈ field) (hmem : t ∈ q.tasks)
    (hnot : ∀ q ∈ field, q.soonest field = true → q.place ≠ t) :
    step w o ⟨m, [.round ids (t :: rest), .loop 0], .done⟩ =
      ⟨m, [.round ids rest, .loop 0], .done⟩ := by
  have hstands := raced.stands q hq
  rcases Racer.mem_tasks.mp hmem with rfl | ⟨hlate, rfl⟩
  · have hended : (q.soonest field && !(q.place :: rest).contains q.place) = false := by simp
    rw [hended] at hstands
    obtain ⟨u, hu, _, _, awaits⟩ := hstands.place
    exact step_round_awaiting hu (awaits rfl) fun hid => hnot q hq ((hids q hq).mp hid) rfl
  · obtain ⟨u, hu, _, _, came, planned⟩ := hstands.call hlate
    cases hsoonest : q.soonest field with
    | true => exact step_round_done hu (came hsoonest).done
    | false => exact step_round_planned hu (planned hsoonest)

/-- A placeholder comes to its end in the round that tells of its call. -/
theorem leads_round_place {ids rest : List Nat} {q : Racer}
    (hc : Steady w o ⟨m, [.round ids (q.place :: rest), .loop 0], .done⟩)
    (raced : m.Raced g keyed field (·.soonest field)
      fun q' => q'.soonest field && !(q.place :: rest).contains q'.place)
    (hq : q ∈ field) (hsoonest : q.soonest field = true) (hid : q.place + 1 ∈ ids)
    (hout : q.place ∉ rest) :
    ∃ m', Leads w o ⟨m, [.round ids (q.place :: rest), .loop 0], .done⟩ []
        ⟨m', [.round ids rest, .loop 0], .done⟩ ∧
      m'.Raced g keyed field (·.soonest field)
        (fun q' => q'.soonest field && !rest.contains q'.place) ∧
      m'.registry.size = m.registry.size ∧ m'.registry.finished = m.registry.finished ++ [q.place] ∧
      m'.steps = m.steps ∧ m'.outer = m.outer := by
  have hstands := raced.stands q hq
  have hended : (q.soonest field && !(q.place :: rest).contains q.place) = false := by simp
  rw [hended] at hstands
  obtain ⟨u, hu, holds, _, awaits⟩ := hstands.place
  have awaits := awaits rfl
  obtain ⟨e, he, parent, hale, came, planned⟩ := hstands.call (hstands.late rfl)
  have came := came hsoonest
  have hleads : Leads w o ⟨m, [.round ids (q.place :: rest), .loop 0], .done⟩ []
      ⟨{ m with registry := m.registry.close q.place q.entrant.output, handled := none },
        [.round ids rest, .loop 0], .done⟩ :=
    came.result ▸ leads_round_awaiting hu awaits hid he (Nat.succ_ne_self _)
  have hpending : q.place ∈ m.registry.pending := hc.forest.mem_pending.mpr ⟨u, hu, awaits.done⟩
  have hstands' : q.Stands (q.soonest field) (q.soonest field && !rest.contains q.place) false
      (m.registry.close q.place q.entrant.output) := by
    have hended : (q.soonest field && !rest.contains q.place) = true := by simp [hsoonest, hout]
    rw [hended]
    exact ⟨nofun,
      ⟨_, Registry.get?_close_self hu _, ⟨holds.name, holds.parent, holds.hale, holds.cancelled,
      holds.abandoned⟩, fun _ => ⟨rfl, rfl⟩, nofun⟩,
      fun _ => ⟨e, (Registry.get?_close_ne (Nat.succ_ne_self _)
      _).trans he, parent, hale, fun _ => came, planned⟩⟩
  have hothers : ∀ q' ∈ field, q.place ∉ q'.tasks → (q'.soonest field && !rest.contains q'.place) =
      (q'.soonest field && !(q.place :: rest).contains q'.place) := by
    intro q' _ hnot
    have hne : q'.place ≠ q.place := fun he => hnot (he ▸ q'.place_mem_tasks)
    simp [hne]
  exact ⟨_, hleads, raced.close hq q.place_mem_tasks none hstands' (fun _ _ _ => rfl) hothers,
    Registry.size_close .., Registry.finished_close hpending _, rfl, rfl⟩

/-- In the round after that the placeholders of those calls come to their end. -/
theorem leads_round_of_racers {ids rest : List Nat}
    (hids : ∀ q ∈ field, (q.place + 1 ∈ ids ↔ q.soonest field = true)) :
    ∀ {m : Machine σ}, Steady w o ⟨m, [.round ids rest, .loop 0], .done⟩ →
      m.Raced g keyed field (·.soonest field) (fun q => q.soonest field && !rest.contains q.place) →
      rest.Nodup → (∀ i ∈ rest, 0 < i ∧ i < m.registry.size) →
      (∀ q ∈ field, m.registry.finished.contains q.place =
        (q.soonest field && !rest.contains q.place)) →
      ∃ m', Leads w o ⟨m, [.round ids rest, .loop 0], .done⟩ []
        ⟨m', [.round ids [], .loop 0], .done⟩ ∧
        m'.Raced g keyed field (·.soonest field) (·.soonest field) ∧
        (∀ q ∈ field, m'.registry.finished.contains q.place = q.soonest field) ∧
        m'.steps = m.steps ∧
        m'.outer = m.outer := by
  induction rest with
  | nil =>
    intro m _ raced _ _ htold
    exact ⟨m, .refl _, by simpa using raced, by simpa using htold, rfl, rfl⟩
  | cons t rest ih =>
    intro m hc raced hnodup hrange htold
    obtain ⟨hout, hnodup'⟩ := List.nodup_cons.mp hnodup
    have hrange' : ∀ i ∈ rest, 0 < i ∧ i < m.registry.size :=
      fun i hi => hrange i (List.mem_cons_of_mem _ hi)
    by_cases hends : ∃ q ∈ field, q.soonest field = true ∧ q.place = t
    · obtain ⟨q, hq, hsoonest, rfl⟩ := hends
      obtain ⟨m₁, hleads₁, raced₁, hsize, hfinished, hsteps, houter⟩ :=
        leads_round_place (w := w) (o := o) hc raced hq hsoonest ((hids q hq).mpr hsoonest) hout
      have htold₁ : ∀ q' ∈ field,
          m₁.registry.finished.contains q'.place =
            (q'.soonest field && !rest.contains q'.place) := by
        intro q' hq'
        rw [hfinished, List.contains_append, htold q' hq']
        by_cases hqq : q'.place = q.place
        · have hsame := raced.tasks.unique hq' hq q'.place_mem_tasks (hqq ▸ q.place_mem_tasks)
          simp [hsame, hsoonest, hout]
        · simp [hqq]
      obtain ⟨m', hleads, raced', htold', hsteps', houter'⟩ :=
        ih (hleads₁.steady hc) raced₁ hnodup' (hsize ▸ hrange') htold₁
      exact ⟨m', hleads₁.trans hleads, raced', htold', hsteps'.trans hsteps, houter'.trans houter⟩
    · have hnot : ∀ q ∈ field, q.soonest field = true → q.place ≠ t := fun q hq hsoonest he =>
        hends ⟨q, hq, hsoonest, he⟩
      have hsame : ∀ q ∈ field, (q.soonest field && !rest.contains q.place) =
          (q.soonest field && !(t :: rest).contains q.place) := by
        intro q hq
        cases hsoonest : q.soonest field with
        | false => rfl
        | true => simp [hnot q hq hsoonest]
      obtain ⟨hpos, hlt⟩ := hrange t (List.mem_cons_self ..)
      obtain ⟨q, hq, hmem⟩ := raced.tasks.cover hpos hlt
      have hone : Leads w o ⟨m, [.round ids (t :: rest), .loop 0], .done⟩ []
          ⟨m, [.round ids rest, .loop 0], .done⟩ :=
            .one rfl rfl (step_round_passed hids raced hq hmem hnot)
      obtain ⟨m', hleads, h⟩ :=
        ih (hone.steady hc) (raced.of_same rfl (fun _ _ => rfl) raced.root (fun _ _ => rfl) hsame)
        hnodup' hrange' fun q' hq' => (htold q' hq').trans (hsame q' hq').symm
      exact ⟨m', hone.trans hleads, h⟩

/-- A round that tells of no placeholder leaves the root waiting. -/
theorem step_round_racing {ids : List Nat} (rest : List Nat) {u : Task}
    (hu : m.registry.get? 0 = some u)
    (races : u.Races g keyed field) (hnone : ∀ q ∈ field, q.place ∉ ids) :
    ∃ m' : Machine σ, step w o ⟨m, [.round ids (0 :: rest), .loop 0], .done⟩ =
        ⟨m', [.round ids rest, .loop 0], .done⟩ ∧
      (∃ u, m'.registry.get? 0 = some u ∧ u.Races g keyed field) ∧
      (∀ i ≠ 0, m'.registry.get? i = m.registry.get? i) ∧ m'.registry.size = m.registry.size ∧
      m'.registry.finished = m.registry.finished ∧ m'.steps = m.steps ∧ m'.outer = m.outer := by
  have hsettle : (m.registry.modify 0 fun task => task.removeChildren ids).settle 0
      ⟨.race, (Racer.race keyed field []).shape, field.map (·.place), none⟩ ids =
      .ok (false, ⟨.race, (Racer.race keyed field []).shape, field.map (·.place), none⟩,
        m.registry.modify 0 fun task => task.removeChildren ids) := by
    have hfind : (field.map (·.place)).find? ids.contains = none := by
      refine List.find?_eq_none.mpr fun p hp => ?_
      obtain ⟨q, hq, rfl⟩ := List.mem_map.mp hp
      simpa using hnone q hq
    simp only [Registry.settle, Racer.waitingOn_race, hfind]
  refine ⟨_, step_round_unsettled rest [.loop 0] hu races.undone races.interruption rfl hsettle, ?_,
    ?_, ?_, rfl,
    rfl, rfl⟩
  · refine ⟨_, Registry.get?_modify_of_eq_some (fun task => task.awaiting _)
      (Registry.get?_modify_of_eq_some (fun task => task.removeChildren ids) hu), ?_⟩
    exact ⟨⟨races.coroutine, races.undone, races.hale⟩, rfl, races.wait, races.idle⟩
  · exact fun i hi => (Registry.get?_modify_ne hi).trans (Registry.get?_modify_ne hi)
  · exact (Registry.size_modify ..).trans (Registry.size_modify ..)

/-- The race is decided: the saga is about to be sent `prize`. Those that come soonest are over, and
all the others have lost. -/
structure Decided (w : World σ) (g : Nat) (field : List Racer) (prize : Value) (c : Config σ) :
    Prop where
  about : ∃ m below, Grounded below ∧ (c = ⟨m, .driving 0 :: below, .answer (.advance prize)⟩ ∨
    c = ⟨m, below, .drive 0 (.send prize)⟩)
  stands :
    ∀ q ∈ field, q.Stands (q.soonest field) (q.soonest field) (!q.soonest field) c.machine.registry
  tasks : Racer.Field field c.machine.registry.size
  root : ∃ u, c.machine.registry.get? 0 = some u ∧ u.Goes g
  returns : w.Returns g c.machine.outer

end Config

/-- The race is settled for the first of the placeholders that are told of, and those that are not
over are let go. -/
theorem Racer.Field.settle_race {r : Registry} {field : List Racer} {ids : List Nat}
    {k : Racer} (keyed : Bool)
    (tasks : Racer.Field field r.size)
    (h : ∀ q ∈ field, q.Stands (q.soonest field) (q.soonest field) false r)
    (hids : ∀ q ∈ field, ids.contains q.place = q.soonest field)
    (first : field.find? (·.soonest field) = some k) :
    ∃ i, r.settle 0 ⟨.race, (Racer.race keyed field []).shape, field.map (·.place), none⟩ ids =
        .ok (true, i,
          ((field.filter fun q => !q.soonest field).map (·.place)).foldl Registry.letGo r) ∧
      i.answer = some (.value (Racer.prize keyed (fun q => q.place == k.place) field)) ∧
      i.kind = .race := by
  have hk : k ∈ field := List.mem_of_find?_eq_some first
  have hksoonest : k.soonest field = true := List.find?_some first
  have hfind : (field.map (·.place)).find? ids.contains = some k.place := by
    have hfilter : field.filter (ids.contains ∘ (·.place)) = field.filter (·.soonest field) :=
      List.filter_congr hids
    rw [List.find?_map, ← List.head?_filter, hfilter, List.head?_filter, first]
    rfl
  have hlosers :
      (((field.map (·.place)).filter fun l => l != k.place).filter fun i => !r.isDone i) =
      (field.filter fun q => !q.soonest field).map (·.place) := by
    rw [List.filter_filter, List.filter_map]
    refine congrArg (List.map _) (List.filter_congr fun q hq => ?_)
    show ((!r.isDone q.place) && q.place != k.place) = _
    rw [(h q hq).isDone_place]
    cases hs : q.soonest field with
    | true => rfl
    | false =>
      have hne : q.place ≠ k.place := fun he => by
        rw [tasks.unique hq hk q.place_mem_tasks (he ▸ k.place_mem_tasks), hksoonest] at hs
        cases hs
      simp [hne]
  generalize hr' :
    ((field.filter fun q => !q.soonest field).map (·.place)).foldl Registry.letGo r = r'
  have hresult : r'.resultOf k.place = k.entrant.output := by
    have hwinner := tasks.letGo h (fun q _ hq => hq) k hk
    rw [hr', hksoonest] at hwinner
    exact hwinner.resultOf_place
  have hprize : ((Racer.race keyed field []).shape.mapSlots fun slot =>
      if slot.awaited? == some k.place then .completed
        (r'.resultOf k.place) else .value .null).unwrap =
      Racer.prize keyed (fun q => q.place == k.place) field := by
    rw [Racer.unwrap_mapSlots_race]
    refine congrArg (Assembly.collected keyed)
      (List.map_congr_left fun q hq => congrArg (q.key, ·) ?_)
    by_cases hqk : q.place = k.place
    · have hsame := tasks.unique hq hk q.place_mem_tasks (hqk ▸ k.place_mem_tasks)
      simp [Pending.awaited?, Pending.slotValue, hsame, hresult]
    · simp [Pending.awaited?, Pending.slotValue, hqk]
  rw [← Racer.waitingOn_race keyed] at hfind
  refine ⟨_, Registry.settle_of_winner rfl hfind ?_,
    congrArg (fun v => some (Pending.value v)) hprize, rfl⟩
  rw [Racer.waitingOn_race, hlosers, hr']

namespace Config

variable {g : Nat} {keyed : Bool} {field : List Racer} {m : Machine σ}

/-- A round that tells of placeholders decides the race for the first of them. -/
theorem leads_round_decided {ids rest : List Nat} {k : Racer}
    (raced : m.Raced g keyed field (·.soonest field) (·.soonest field))
    (returns : w.Returns g m.outer)
    (hids : ∀ q ∈ field, ids.contains q.place = q.soonest field)
    (first : field.find? (·.soonest field) = some k) :
    ∃ c, Leads w o ⟨m, [.round ids (0 :: rest), .loop 0], .done⟩ [] c ∧
      c.Decided w g field (Racer.prize keyed (fun q => q.place == k.place) field) ∧
      c.machine.steps = m.steps := by
  obtain ⟨u, hu, races⟩ := raced.root
  generalize hr : m.registry.modify 0 (fun task => task.removeChildren ids) = r
  have hstands : ∀ q ∈ field, q.Stands (q.soonest field) (q.soonest field) false r := fun q hq =>
    (raced.stands q hq).congr fun i hi => by
      rw [← hr, Registry.get?_modify_ne (Nat.ne_of_gt (raced.tasks.range hq hi).1)]
  have htasks : Racer.Field field r.size := by
    rw [← hr, Registry.size_modify]
    exact raced.tasks
  obtain ⟨i, hsettle, hanswer, hkind⟩ := htasks.settle_race keyed hstands hids first
  have hletGo := htasks.letGo hstands fun q _ hq => hq
  have hsize :=
    (Registry.letGoAll_flagged r ((field.filter fun q => !q.soonest field).map (·.place))).size
  have hroot : ∃ u,
      (((field.filter fun q => !q.soonest field).map (·.place)).foldl Registry.letGo r).get? 0 =
      some u ∧ u.Goes g := by
    have hu' : r.get? 0 = some (u.removeChildren ids) := by
      rw [← hr]
      exact Registry.get?_modify_of_eq_some _ hu
    rw [Registry.get?_letGoAll, hu']
    exact ⟨_, rfl, races.coroutine, races.undone, races.hale⟩
  generalize ((field.filter fun q => !q.soonest field).map (·.place)).foldl Registry.letGo r = r'
    at hsettle hletGo hsize hroot
  obtain ⟨v, hv, goes⟩ := hroot
  have hleads := leads_round_settled (w := w) (o := o) rest [.loop 0] hu races.undone races.idle
    (by rw [races.wait]; rfl) races.interruption rfl (hr.symm ▸ hsettle)
    ⟨v, hv, goes.coroutine.trans races.coroutine.symm⟩ hanswer (by simp [hkind])
  simp only [races.coroutine, Option.isNone_some, Bool.false_eq_true, if_false] at hleads
  refine ⟨_, hleads, ⟨⟨_, _, .round ids rest, Or.inr rfl⟩, fun q hq => ?_, ?_, ?_, returns⟩, rfl⟩
  · exact (hletGo q hq).congr fun j hj =>
      Registry.get?_modify_ne (Nat.ne_of_gt (htasks.range hq hj).1)
  · show Racer.Field field (Registry.size (Registry.modify _ _ _))
    rw [Registry.size_modify, hsize]
    exact htasks
  · exact ⟨_, Registry.get?_modify_of_eq_some _ hv, goes.coroutine, goes.undone, goes.hale⟩

/-- Where somebody need not wait, the race is decided at once: nothing is started before. -/
theorem leads_decided_at_once {c : Config σ} (unfinished : c.isFinal = false) (idle : c.starts = [])
    (hs : c.step w o = ofOutcome [.driving 0, .batch [], .loop 0]
      (m.concludeComposite (Racer.race keyed field [])))
    (linedUp : m.LinedUp g field) (returns : w.Returns g m.outer)
    (hprompt : ∃ q ∈ field, q.entrant.prompt = true) :
    ∃ c', Leads w o c [] c' ∧ c'.Decided w g field (Racer.prize keyed (·.entrant.prompt) field) ∧
      c'.machine.steps = m.steps := by
  have hne : field ≠ [] := List.ne_nil_of_mem hprompt.choose_spec.1
  have hany : field.any (·.entrant.prompt) = true := List.any_eq_true.mpr hprompt
  rw [linedUp.concludeComposite_eq keyed hne, if_pos hany] at hs
  have hletGo := linedUp.tasks.letGo linedUp.stands fun _ _ _ => rfl
  refine ⟨_, .one unfinished idle hs, ⟨⟨_, _, .batch [], Or.inl rfl⟩, ?_, ?_, ?_, returns⟩, rfl⟩
  · intro q hq
    rw [Racer.soonest_eq_prompt hprompt]
    have hstands := hletGo q hq
    exact ⟨hstands.late, hstands.place, fun hlate => hlate.symm ▸ hstands.call hlate⟩
  · exact (Registry.letGoAll_flagged ..).size.symm ▸ linedUp.tasks
  · obtain ⟨u, hu, hgoes⟩ := linedUp.root
    refine ⟨_, (Registry.get?_letGoAll ..).trans (congrArg (Option.map _) hu),
      hgoes.coroutine, hgoes.undone,
      hgoes.hale⟩

end Config

/-! ### Where all have to wait -/

/-- As long as the root is not over it is the first of those that are pending. -/
theorem Registry.Forest.exists_pending_eq {r : Registry} (forest : r.Forest) {u : Task}
    (hu : r.get? 0 = some u)
    (hd : u.done = false) : ∃ rest, r.pending = 0 :: rest := by
  have hmem : 0 ∈ r.pending := forest.mem_pending.mpr ⟨u, hu, hd⟩
  obtain ⟨a, rest, hcons⟩ := List.exists_cons_of_ne_nil (List.ne_nil_of_mem hmem)
  have hsorted := forest.sorted
  rw [hcons] at hmem hsorted
  rcases List.mem_cons.mp hmem with rfl | hmem
  · exact ⟨rest, hcons⟩
  · exact (Nat.not_lt_zero a ((List.pairwise_cons.mp hsorted).1 0 hmem)).elim

theorem Registry.Forest.map_id_pendingTasks {r : Registry} (forest : r.Forest) :
    r.pendingTasks.map (·.id) = r.pending := by
  unfold pendingTasks select
  rw [List.map_filterMap]
  refine Eq.trans (List.filterMap_congr fun i hi => ?_) List.filterMap_some
  obtain ⟨t, ht, _⟩ := forest.mem_pending.mp hi
  rw [ht, Option.map_some, forest.id_eq ht]

namespace Config

variable {g : Nat} {keyed : Bool} {field : List Racer} {m : Machine σ} {k : Racer}

/-- The root waits for the race. -/
theorem leads_waiting {c : Config σ} (unfinished : c.isFinal = false) (idle : c.starts = [])
    (hs : c.step w o = ofOutcome [.driving 0, .batch [], .loop 0]
      (m.concludeComposite (Racer.race keyed field [])))
    (linedUp : m.LinedUp g field) (hne : field ≠ [])
    (hlate : ∀ q ∈ field, q.entrant.prompt = false) :
    ∃ m', Leads w o c [] ⟨m', [.loop 0], .done⟩ ∧
    m'.Raced g keyed field (fun _ => false) (fun _ => false) ∧
      m'.registry.finished = [] ∧ m'.steps = m.steps ∧ m'.outer = m.outer := by
  have hany : ¬ field.any (·.entrant.prompt) = true := fun h => by
    obtain ⟨q, hq, hprompt⟩ := List.any_eq_true.mp h
    rw [hlate q hq] at hprompt
    cases hprompt
  rw [linedUp.concludeComposite_eq keyed hne, if_neg hany] at hs
  generalize hi :
    (⟨.race, (Racer.race keyed field []).shape, field.map (·.place), none⟩ : Interruption) = i at hs
  obtain ⟨m', hblocked, hreg, hsteps, houter⟩ :=
    leads_blocked (w := w) (o := o) m [.batch [], .loop 0] 0 i (Or.inl rfl)
  have hfinished : m'.registry.finished = [] := by
    rw [hreg]
    exact linedUp.finished hlate
  refine ⟨m', (Leads.head unfinished idle hs hblocked).trans
    (leads_reaped_nil (Or.inl rfl) hfinished), ⟨fun q hq => ?_, ?_, ?_⟩, hfinished, hsteps, houter⟩
  · have hstands := linedUp.stands q hq
    rw [hlate q hq] at hstands
    exact hstands.congr fun i hi => by
      rw [hreg, Registry.get?_modify_ne (Nat.ne_of_gt (linedUp.tasks.range hq hi).1)]
  · rw [hreg, Registry.size_modify]
    exact linedUp.tasks
  · obtain ⟨u, hu, hgoes⟩ := linedUp.root
    have hu' : m'.registry.get? 0 = some ({ u with running := false }.block i) := by
      rw [hreg]
      exact Registry.get?_modify_of_eq_some _ hu
    refine ⟨_, hu', ⟨hgoes.coroutine, hgoes.undone, hgoes.hale⟩, ?_, ?_, rfl⟩
    · rw [← hi]
      rfl
    · rw [← hi]
      rfl

/-- The main loop has the calls made that come soonest. -/
theorem leads_made (hc : Steady w o ⟨m, [.loop 0], .done⟩)
    (raced : m.Raced g keyed field (fun _ => false) fun _ => false)
    (hfinished : m.registry.finished = [])
    (hne : field ≠ []) (hlimit : m.steps < o.stepLimit) :
    ∃ m' ids, Leads w o ⟨m, [.loop 0], .done⟩ ids ⟨m', [.batch [], .loop 0], .done⟩ ∧
      m'.Raced g keyed field (·.soonest field) (fun _ => false) ∧
      (∀ i, i ∈ m'.registry.finished ↔ ∃ q ∈ field, q.soonest field = true ∧ i = q.place + 1) ∧
      m'.steps = m.steps + 1 ∧ m'.outer = m.outer := by
  have hmem := fun i => raced.mem_batch (i := i) hc.forest
  have hnodup : ((selectReadyBatch m.registry.pendingTasks).map (·.id)).Nodup :=
    ((selectReadyBatch_sublist _).map _).nodup
      (hc.forest.map_id_pendingTasks ▸ hc.forest.pending_nodup)
  have hundone : m.registry.isDone 0 = false := by
    obtain ⟨u, hu, races⟩ := raced.root
    exact (Registry.isDone_of_eq_some hu).trans races.undone
  have hbatch : selectReadyBatch m.registry.pendingTasks ≠ [] := by
    obtain ⟨q, hq, hsoonest⟩ := Racer.exists_soonest hne
    intro hnil
    simpa [hnil] using (hmem (q.place + 1)).mpr ⟨q, hq, hsoonest, rfl⟩
  obtain ⟨m₁, hreg₁, hsteps₁, houter₁, hleads₁⟩ := leads_looking (w := w) hundone hlimit hbatch
  generalize (selectReadyBatch m.registry.pendingTasks).map (·.id) = ids at hmem hnodup hleads₁
  have hc₁ := hleads₁.steady hc
  have raced₁ : m₁.Raced g keyed field (fun q => q.soonest field && !ids.contains (q.place + 1))
      fun _ => false := by
    refine raced.of_same (by rw [hreg₁])
      (fun i _ => by rw [hreg₁]) (hreg₁ ▸ raced.root) (fun q hq => ?_)
      fun _ _ => rfl
    cases hsoonest : q.soonest field with
    | false => rfl
    | true => simpa using (hmem (q.place + 1)).mpr ⟨q, hq, hsoonest, rfl⟩
  obtain ⟨m₂, hleads₂, raced₂, hfinished₂, hsteps₂, houter₂⟩ :=
    leads_batch_of_racers (w := w) (o := o) hc₁ raced₁ hnodup fun i hi => (hmem i).mp hi
  refine ⟨m₂, _, hleads₁.trans hleads₂, raced₂, fun i => ?_, hsteps₂.trans hsteps₁,
    houter₂.trans houter₁⟩
  rw [hfinished₂, hreg₁, hfinished, List.nil_append]
  exact hmem i

/-- A round tells of these calls, and their placeholders are over. -/
theorem leads_ended (hc : Steady w o ⟨m, [.batch [], .loop 0], .done⟩)
    (raced : m.Raced g keyed field (·.soonest field) fun _ => false)
    (hfinished : ∀ i, i ∈ m.registry.finished ↔ ∃ q ∈ field, q.soonest field =
      true ∧ i = q.place + 1)
    (hne : field ≠ []) (within : m.steps ≤ o.stepLimit) :
    ∃ m' ids, Leads w o ⟨m, [.batch [], .loop 0], .done⟩ [] ⟨m', [.round ids [], .loop 0], .done⟩ ∧
      m'.Raced g keyed field (·.soonest field) (·.soonest field) ∧
      (∀ q ∈ field, m'.registry.finished.contains q.place = q.soonest field) ∧ m'.steps = m.steps ∧
      m'.outer = m.outer := by
  have hsome : m.registry.finished ≠ [] := by
    obtain ⟨q, hq, hsoonest⟩ := Racer.exists_soonest hne
    exact List.ne_nil_of_mem ((hfinished (q.place + 1)).mpr ⟨q, hq, hsoonest, rfl⟩)
  have hids : ∀ q ∈ field, (q.place + 1 ∈ m.registry.finished ↔ q.soonest field = true) := by
    intro q hq
    rw [hfinished]
    refine ⟨?_, fun hsoonest => ⟨q, hq, hsoonest, rfl⟩⟩
    rintro ⟨q', hq', hsoonest, he⟩
    rwa [raced.tasks.unique hq hq' q.place_mem_tasks (Nat.succ.inj he ▸ q'.place_mem_tasks)]
  have hplaces : ∀ q ∈ field, q.place ∉ m.registry.finished := by
    intro q hq hmem
    obtain ⟨q', hq', _, he⟩ := (hfinished _).mp hmem
    have hcall : q.place ∈ q'.tasks :=
      Racer.mem_tasks.mpr (Or.inr ⟨(raced.stands q' hq').late rfl, he⟩)
    rw [raced.tasks.unique hq hq' q.place_mem_tasks hcall] at he
    exact Nat.succ_ne_self _ he.symm
  obtain ⟨u, hu, races⟩ := raced.root
  obtain ⟨rest, hpending⟩ := hc.forest.exists_pending_eq hu races.undone
  have hnodup := hc.forest.pending_nodup
  obtain ⟨m₁, hreg₁, hsteps₁, houter₁, hleads₁⟩ :=
    leads_reaped (w := w) (o := o) (m := m) (Or.inl rfl) hsome (Nat.not_lt.mpr within)
  have hu₁ : m₁.registry.get? 0 = some u := by
    rw [hreg₁]
    exact hu
  obtain ⟨m₂, hs₂, hroot₂, hget₂, hsize₂, hfinished₂, hsteps₂, houter₂⟩ :=
    step_round_racing (w := w) (o := o) rest hu₁ races hplaces
  rw [hreg₁] at hget₂ hsize₂ hfinished₂
  rw [hpending] at hleads₁ hnodup
  obtain ⟨hout, hnodup⟩ := List.nodup_cons.mp hnodup
  have hleads₂ := hleads₁.trans (.one rfl rfl hs₂)
  have hc₂ := hleads₂.steady hc
  have hin : ∀ q ∈ field, rest.contains q.place = true := by
    intro q hq
    have hmem : q.place ∈ m.registry.pending := by
      obtain ⟨t, ht, _, _, awaits⟩ := (raced.stands q hq).place
      exact hc.forest.mem_pending.mpr ⟨t, ht, (awaits rfl).done⟩
    rw [hpending] at hmem
    simpa using (List.mem_cons.mp hmem).resolve_left
      (Nat.ne_of_gt (raced.tasks.range hq q.place_mem_tasks).1)
  have hnone : ∀ q ∈ field, (q.soonest field && !rest.contains q.place) = false := fun q hq => by
    rw [hin q hq, Bool.not_true, Bool.and_false]
  have hrange : ∀ i ∈ rest, 0 < i ∧ i < m₂.registry.size := fun i hi =>
    ⟨Nat.pos_of_ne_zero fun h0 => hout (h0 ▸ hi),
      hsize₂.symm ▸ hc.forest.lt_of_mem_pending (hpending ▸ List.mem_cons_of_mem _ hi)⟩
  have htold : ∀ q ∈ field,
      m₂.registry.finished.contains q.place = (q.soonest field && !rest.contains q.place) :=
        fun q hq => by
    rw [hfinished₂, hnone q hq]
    rfl
  obtain ⟨m₃, hleads₃, raced₃, htold₃, hsteps₃, houter₃⟩ :=
    leads_round_of_racers (w := w) (o := o) hids hc₂
    (raced.of_same hsize₂ hget₂ hroot₂ (fun _ _ => rfl) hnone) hnodup hrange htold
  exact ⟨m₃, _, hleads₂.trans hleads₃, raced₃, htold₃, hsteps₃.trans (hsteps₂.trans hsteps₁),
    houter₃.trans (houter₂.trans houter₁)⟩

/-- The next round tells of the placeholders, and decides the race. -/
theorem leads_told {ids : List Nat} (hc : Steady w o ⟨m, [.round ids [], .loop 0], .done⟩)
    (raced : m.Raced g keyed field (·.soonest field) (·.soonest field))
    (returns : w.Returns g m.outer)
    (hfinished : ∀ q ∈ field, m.registry.finished.contains q.place = q.soonest field)
    (first : field.find? (·.soonest field) = some k) (within : m.steps ≤ o.stepLimit) :
    ∃ c, Leads w o ⟨m, [.round ids [], .loop 0], .done⟩ [] c ∧
      c.Decided w g field (Racer.prize keyed (fun q => q.place == k.place) field) ∧
      c.machine.steps = m.steps := by
  have hsome : m.registry.finished ≠ [] := by
    have htold := (hfinished k (List.mem_of_find?_eq_some first)).trans (List.find?_some first)
    exact List.ne_nil_of_mem (List.contains_iff_mem.mp htold)
  obtain ⟨u, hu, races⟩ := raced.root
  obtain ⟨rest, hpending⟩ := hc.forest.exists_pending_eq hu races.undone
  obtain ⟨m₁, hreg₁, hsteps₁, houter₁, hleads₁⟩ :=
    leads_reaped (w := w) (o := o) (Or.inr ⟨_, rfl⟩) hsome (Nat.not_lt.mpr within)
  rw [hpending] at hleads₁
  have raced₁ : m₁.Raced g keyed field (·.soonest field) (·.soonest field) :=
    raced.of_same (by rw [hreg₁]; rfl)
      (fun i _ => by rw [hreg₁]; rfl) ⟨u, by rw [hreg₁]; exact hu, races⟩
      (fun _ _ => rfl) fun _ _ => rfl
  obtain ⟨c, hleads₂, decided, hsteps₂⟩ :=
    leads_round_decided (o := o) raced₁ (houter₁.symm ▸ returns) hfinished first
  exact ⟨c, hleads₁.trans hleads₂, decided, hsteps₂.trans hsteps₁⟩

/-- **Where all have to wait**, the race is decided for the first of those that come soonest. -/
theorem leads_decided_late {c : Config σ} (hc : c.Steady w o) (unfinished : c.isFinal = false)
    (idle : c.starts = [])
    (hs : c.step w o = ofOutcome [.driving 0, .batch [], .loop 0]
      (m.concludeComposite (Racer.race keyed field [])))
    (linedUp : m.LinedUp g field) (returns : w.Returns g m.outer)
    (hlate : ∀ q ∈ field, q.entrant.prompt = false)
    (first : field.find? (·.soonest field) = some k) (hlimit : m.steps < o.stepLimit) :
    ∃ ids c', Leads w o c ids c' ∧
      c'.Decided w g field (Racer.prize keyed (fun q => q.place == k.place) field) ∧
      c'.machine.steps = m.steps + 1 := by
  have hne : field ≠ [] := List.ne_nil_of_mem (List.mem_of_find?_eq_some first)
  obtain ⟨m₁, hleads₁, raced₁, hfinished₁, hsteps₁, houter₁⟩ :=
    leads_waiting unfinished idle hs linedUp hne hlate
  have hc₁ := hleads₁.steady hc
  obtain ⟨m₂, ids, hleads₂, raced₂, hfinished₂, hsteps₂, houter₂⟩ :=
    leads_made (w := w) hc₁ raced₁ hfinished₁ hne (hsteps₁ ▸ hlimit)
  have hc₂ := hleads₂.steady hc₁
  obtain ⟨m₃, _, hleads₃, raced₃, hfinished₃, hsteps₃, houter₃⟩ :=
    leads_ended hc₂ raced₂ hfinished₂ hne (by omega)
  have hc₃ := hleads₃.steady hc₂
  have returns₃ : w.Returns g m₃.outer := by rwa [houter₃, houter₂, houter₁]
  obtain ⟨c', hleads₄, decided, hsteps₄⟩ :=
    leads_told hc₃ raced₃ returns₃ hfinished₃ first (by omega)
  exact ⟨_, c', hleads₁.trans (hleads₂.trans (hleads₃.trans hleads₄)), decided, by omega⟩

end Config

end Rehearsal
