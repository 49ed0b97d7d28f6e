import Rehearsal.Proofs.Engine.Assembly
import Rehearsal.Proofs.Engine.Entering
import Rehearsal.Proofs.Engine.Gathering
import Rehearsal.Proofs.Engine.Resting
import Rehearsal.Proofs.Engine.Turns
import Rehearsal.Proofs.Task.Foresight

/-!
# Gathers that ripen

While a saga gathers a tree of calls, it can be said of every task what it will come to, from the
moment the task is made and whatever the waits are. `Config.Ripens` says so, together with what is
still to be asked for and how many steps that can take, and one step after the other keeps to it:
members that are finished at once and members that finish rounds later come to the same.
-/
namespace Rehearsal

variable {σ : Type} {begun : Nat → Prop} {val val' : Nat → Value} {n n' t : Nat}
    {stack below : List Frame}
  {later : List Assembly}

/-! ### What is being gathered -/

/-- The gather `k` has members made, and `parts` still to come; altogether that is what its task
comes to. -/
structure Composite.Forms (val : Nat → Value) (n : Nat) (k : Composite)
    (parts : List (Value × Assembly)) :
    Prop where
  gather : k.isRace = false
  task_lt : k.task < n
  made_lt : ∀ e ∈ k.made, e.2 < n
  rest : k.rest = parts.map fun e => (e.1, e.2.effect)
  value : val k.task = Assembly.collected k.keyed
    (k.made.map (fun e => (e.1, val e.2)) ++ parts.map fun e => (e.1, e.2.value))

/-- Only the main loop stands below. -/
inductive Grounded : List Frame → Prop
  | batch (rest : List Nat) : Grounded [.batch rest, .loop 0]
  | round (ids rest : List Nat) : Grounded [.round ids rest, .loop 0]

/-- A part of the tree is being interpreted for task `t`. The gathers below have the trees in
`later` still to ask for, in this order. -/
inductive Asking (val : Nat → Value) (n : Nat) : Nat → List Frame → List Assembly → Prop
  | root {below : List Frame} (h : Grounded below) : Asking val n 0 (.driving 0 :: below) []
  | member {p : Nat} {k : Composite} {parts : List (Value × Assembly)} {below : List Frame}
      {later : List Assembly} (lt : p < n) (forms : k.Forms val n parts)
      (h : Asking val n k.task below later) :
      Asking val n p (.member p :: .composite k :: below) (parts.map (·.2) ++ later)

/-- Nothing is being interpreted: a gather goes on, or the main loop. -/
inductive Between (val : Nat → Value) (n : Nat) : List Frame → List Assembly → Prop
  | grounded {stack : List Frame} (h : Grounded stack) : Between val n stack []
  | composite {k : Composite} {parts : List (Value × Assembly)} {below : List Frame}
      {later : List Assembly}
      (forms : k.Forms val n parts) (h : Asking val n k.task below later) :
      Between val n (.composite k :: below) (parts.map (·.2) ++ later)

/-- What happens next is what should. -/
inductive Accords (val : Nat → Value) (n : Nat) : List Frame → Control → List Assembly → Prop
  | settled : Accords val n [] .done []
  | looking : Accords val n [.loop 0] .done []
  | bubbling (ids : List Nat) : Accords val n [.loop 0] (.bubble ids) []
  | resting {stack : List Frame} {later : List Assembly} (h : Between val n stack later) :
      Accords val n stack .done later
  | asking {t : Nat} {tree : Assembly} {stack : List Frame} {later : List Assembly}
      (h : Asking val n t stack later) (value : val t = tree.value) (b : Bool) :
      Accords val n stack (.interpret t tree.effect b) (tree :: later)
  | advancing {t : Nat} {stack : List Frame} {later : List Assembly}
      (h : Asking val n t stack later) :
      Accords val n stack (.answer (.advance (val t))) later
  | blocking {t : Nat} {i : Interruption} {stack : List Frame} {later : List Assembly}
      (h : Asking val n t stack later) (promises : i.Promises val n (val t)) :
      Accords val n stack (.answer (.block i)) later
  | returning {stack : List Frame} {later : List Assembly} (t : Nat)
      (h : Between val n stack later) :
      Accords val n stack (.complete t (val t)) later
  | picking {stack : List Frame} (t : Nat) (h : Grounded stack) :
      Accords val n stack (.runTask t) []
  | starting {stack : List Frame} (t : Nat) (h : Grounded stack) : Accords val n stack (.start t) []
  | resuming {stack : List Frame} (h : Grounded stack) :
      Accords val n stack (.drive 0 (.send (val 0))) []

theorem Composite.Forms.mono {k : Composite} {parts : List (Value × Assembly)}
    (h : k.Forms val n parts)
    (hn : n ≤ n') (hval : ∀ d < n, val' d = val d) : k.Forms val' n' parts where
  gather := h.gather
  task_lt := Nat.lt_of_lt_of_le h.task_lt hn
  made_lt := fun e he => Nat.lt_of_lt_of_le (h.made_lt e he) hn
  rest := h.rest
  value := by
    have hmade : k.made.map (fun e => (e.1, val' e.2)) = k.made.map fun e => (e.1, val e.2) :=
      List.map_congr_left fun e he => by rw [hval _ (h.made_lt e he)]
    rw [hval _ h.task_lt, hmade, h.value]

/-- Nothing fails, and nothing is given up. -/
theorem Accords.no_failure {control : Control} (h : Accords val n stack control later) :
    (∀ f, control ≠ .abort f) ∧ (∀ t e, control ≠ .fail t e) ∧ ∀ e, control ≠ .raised e := by
  cases h <;> simp

namespace Asking

theorem mono (h : Asking val n t stack later) (hn : n ≤ n') (hval : ∀ d < n, val' d = val d) :
    Asking val' n' t stack later := by
  induction h with
  | root h => exact .root h
  | member lt forms _ ih => exact .member (Nat.lt_of_lt_of_le lt hn) (forms.mono hn hval) ih

theorem task_lt (h : Asking val n t stack later) (hn : 0 < n) : t < n := by
  cases h with
  | root _ => exact hn
  | member lt _ _ => exact lt

/-- The root runs below. -/
theorem root_runs (h : Asking val n t stack later) : 0 ∈ runners stack := by
  induction h with
  | root _ => exact List.mem_cons_self ..
  | member _ _ _ ih => exact List.mem_cons_of_mem _ ih

end Asking

/-- A gather whose members have all been made comes to what its task comes to. -/
theorem Composite.Forms.promises {k : Composite} (h : k.Forms val n []) :
    k.shape.Promises val n (val k.task) where
  lt := by
    intro d hd
    rw [k.waitingOn_shape, List.mem_map] at hd
    obtain ⟨e, he, rfl⟩ := hd
    exact h.made_lt e he
  value := by
    rw [h.value, List.map_nil, List.append_nil]
    unfold Composite.shape Assembly.collected
    split
    · refine congrArg (fun es => Value.dict ⟨false, es⟩) ?_
      rw [List.map_map, List.map_map]
      rfl
    · refine congrArg Value.list ?_
      rw [List.map_map, List.map_map, List.map_map, List.map_map]
      rfl

/-- The next member is made, and comes to what its part comes to. -/
theorem Composite.Forms.next {k : Composite} {key : Value} {part : Assembly}
    {parts : List (Value × Assembly)}
    (h : k.Forms val n ((key, part) :: parts)) :
    Composite.Forms (Function.update val n part.value) (n + 1)
      { k with made := k.made ++ [(key, n)], rest :=
        parts.map fun e => (e.1, e.2.effect) } parts where
  gather := h.gather
  task_lt := Nat.lt_succ_of_lt h.task_lt
  made_lt := by
    intro e he
    rcases List.mem_append.mp he with he | he
    · exact Nat.lt_succ_of_lt (h.made_lt e he)
    · rw [List.mem_singleton.mp he]
      exact Nat.lt_succ_self n
  rest := rfl
  value := by
    have hmade : k.made.map (fun e => (e.1, Function.update val n part.value e.2)) =
        k.made.map fun e => (e.1, val e.2) :=
      List.map_congr_left fun e he => by rw [Function.update_of_ne (Nat.ne_of_lt (h.made_lt e he))]
    show Function.update val n part.value k.task = _
    rw [Function.update_of_ne (Nat.ne_of_lt h.task_lt), h.value, List.map_append, hmade]
    simp

namespace Registry.Amends

variable {l : Licence} {r r' : Registry}

theorem pending_subset (h : r.Amends l r') (hm : ¬ l.makes) (forest : r'.Forest) :
    r'.pending ⊆ r.pending := by
  intro i hi
  refine (h.buffered.1 i hi).resolve_right fun hle => ?_
  have hlt := forest.lt_of_mem_pending hi
  rw [h.size_eq_of_not_makes hm] at hlt
  exact Nat.not_lt_of_le hle hlt

/-- Without leave to make tasks no more are pending. -/
theorem length_pending_le (h : r.Amends l r') (hm : ¬ l.makes) (forest : r'.Forest) :
    r'.pending.length ≤ r.pending.length :=
  (List.subperm_of_subset forest.pending_nodup (h.pending_subset hm forest)).length_le

/-- Fewer are pending once one of them is over. -/
theorem length_pending_lt (h : r.Amends l r') (hm : ¬ l.makes)
    (forest : r'.Forest) (ht : t ∈ r.pending)
    (hd : r'.isDone t = true) : r'.pending.length < r.pending.length := by
  have hn : t ∉ r'.pending := by
    intro hmem
    obtain ⟨u, hu, hopen⟩ := forest.mem_pending.mp hmem
    rw [isDone_of_eq_some hu, hopen] at hd
    cases hd
  have hsub : t :: r'.pending ⊆ r.pending := List.cons_subset.mpr ⟨ht, h.pending_subset hm forest⟩
  exact (List.subperm_of_subset (forest.pending_nodup.cons hn) hsub).length_le

end Registry.Amends

/-! ### Configurations on the way -/

namespace Config

def Drives (c : Config σ) (t : Nat) : Prop := t ∈ runners c.stack ∨ ∃ s, c.control = .drive t s

/-- The steps counted so far, and the most that can still be counted: one for each pending task, and
three for whatever is still to be asked for, which makes up to two tasks. -/
def cost (c : Config σ) (later : List Assembly) : Nat :=
  c.machine.steps + c.machine.registry.pending.length + 3 * (later.map Assembly.size).sum

/-- A step has been counted that the task made for it, or the batch picked for it, has yet to make
up for. -/
def Owes (c : Config σ) : Prop :=
  match c.control, c.stack with
  | .interpret .., _ | .start _, _ => True
  | .runTask t, _ => ∃ u, c.machine.registry.get? t = some u ∧ u.interruption = none
  | .done, .batch rest :: _ =>
    ∃ t ∈ rest, ∃ u, c.machine.registry.get? t = some u ∧ u.isSelectable = true
  | _, _ => False

/-- The run of the generator `g` comes to `outcome`: every task comes to what `val` says, the trees
in `later` are still to be asked for, and that takes no more steps than `budget` allows. -/
structure Ripens (w : World σ) (g : Nat) (outcome : Value) (budget : Nat) (val : Nat → Value)
    (later : List Assembly) (c : Config σ) : Prop where
  accords : Accords val c.machine.registry.size c.stack c.control later
  root : 0 < c.machine.registry.size ∧ val 0 = outcome
  errorless : ∀ t u, c.machine.registry.get? t = some u → u.error = none
  driven : ∀ t u, c.machine.registry.get? t = some u → c.Drives t →
    u.coroutine = Coroutine.ofRoot g t
  tasks : ∀ t u, c.machine.registry.get? t = some u →
    c.Drives t ∨ (∃ v, c.control = .complete t v) ∨ u.Ripens val c.machine.registry.size g t
  heard : ∀ u, c.machine.registry.get? 0 = some u → u.coroutine = Coroutine.ofRoot g 0 →
    w.Plans (w.Echoes g) (later.flatMap Assembly.calls) c.machine.outer
  spent : c.cost later ≤ budget + 1
  solvent : ¬ c.Owes → c.cost later ≤ budget

namespace Ripens

variable {w : World σ} {o : RunOptions} {g budget : Nat} {outcome : Value} {c c' : Config σ}
  {later' : List Assembly}

/-- Whoever is driven, or has just returned, is not over. -/
theorem free_of_driven (hc : c.Sound begun) {u : Task} (hu : c.machine.registry.get? t = some u)
    (h : c.Drives t ∨ ∃ v, c.control = .complete t v) (habort : ∀ f, c.control ≠ .abort f) :
    u.Free := by
  obtain ⟨m, stack, control⟩ := c
  have heq : ∀ {v : Task}, m.registry.get? t = some v → v.Free → u.Free := by
    intro v hv hf
    have hsame := Option.some.inj ((show m.registry.get? t = some u from hu).symm.trans hv)
    exact hsame ▸ hf
  rcases h with (hr | ⟨s, hs⟩) | ⟨v, hv⟩
  · rcases Sound.on_stack hc habort with ⟨_, _, core, _⟩ | ⟨root, rfl⟩ | rfl
    · obtain ⟨v, hv, _, hf⟩ := core.runner hr
      exact heq hv hf
    · cases hr
    · cases hr
  · obtain rfl : control = .drive t s := hs
    cases hc with
    | driving _ _ hv poised => exact heq hv poised.toFree
  · obtain rfl : control = .complete t v := hv
    cases hc with
    | completing _ _ _ hv free _ => exact heq hv free

/-- Whoever is not driven, and has not just returned, ripens. -/
theorem ripens_aside (h : c.Ripens w g outcome budget val later) (hn : ¬ c.Drives t)
    (hv : ∀ v, c.control ≠ .complete t v) {u : Task} (hu : c.machine.registry.get? t = some u) :
    u.Ripens val c.machine.registry.size g t := by
  rcases h.tasks t u hu with hd | ⟨v, hc⟩ | hr
  · exact (hn hd).elim
  · exact (hv v hc).elim
  · exact hr

/-- Those that are over have come to what was said. -/
theorem fulfils (h : c.Ripens w g outcome budget val later) (hc : c.Sound begun) :
    c.machine.registry.Fulfils val := by
  have habort := h.accords.no_failure.1
  intro d hd
  obtain ⟨u, hu, hdone⟩ := Registry.isDone_iff.mp hd
  simp only [Registry.resultOf, hu]
  have hfree : ∀ hf : u.Free, u.result = val d := fun hf => by
    rw [hf.done] at hdone
    cases hdone
  rcases h.tasks d u hu with hr | hr | hr
  · exact hfree (free_of_driven hc hu (Or.inl hr) habort)
  · exact hfree (free_of_driven hc hu (Or.inr hr) habort)
  · cases hr with
    | ended _ result => exact result
    | planned opened _ _ _ =>
      rw [opened] at hdone
      cases hdone
    | blocked interruption _ _ =>
      rw [(hc.forest.ended hu hdone).2.1] at interruption
      cases interruption

/-- Where the root is not worked on its generator is where it was. -/
theorem root_unworked (h : c.Ripens w g outcome budget val later) (hs : c.step w o = c')
    (hw : ¬ c.footprint.works 0) {u' : Task} (hu' : c'.machine.registry.get? 0 = some u') :
    ∃ u, c.machine.registry.get? 0 = some u ∧ u'.coroutine = u.coroutine := by
  obtain ⟨u, hu⟩ := Registry.exists_of_lt h.root.1
  have hn : ¬ c.licence.works 0 := fun hw' => hw'.elim hw (Nat.not_le_of_lt h.root.1)
  obtain ⟨a, b, cs, he⟩ := (amends_step w o c).unworked hn hu
  rw [hs] at he
  obtain rfl := Option.some.inj (hu'.symm.trans he)
  exact ⟨u, hu, rfl⟩

/-- **A step keeps to what was said** if it does so of the tasks that it works on or makes. -/
theorem next (h : c.Ripens w g outcome budget val later) (hs : c.step w o = c')
    (hval : ∀ d < c.machine.registry.size, val' d = val d)
    (accords : Accords val' c'.machine.registry.size c'.stack c'.control later')
    (stay : ∀ t, ¬ c.licence.works t → (c'.Drives t ↔ c.Drives t))
    (worked : ∀ t u, c.licence.works t → c'.machine.registry.get? t = some u →
      (c'.Drives t → u.coroutine = Coroutine.ofRoot g t) ∧
        (c'.Drives t ∨ (∃ v, c'.control = .complete t v) ∨
          u.Ripens val' c'.machine.registry.size g t))
    (heard : ∀ u, c'.machine.registry.get? 0 = some u → u.coroutine = Coroutine.ofRoot g 0 →
      w.Plans (w.Echoes g) (later'.flatMap Assembly.calls) c'.machine.outer)
    (spent : c'.cost later' ≤ budget + 1) (solvent : ¬ c'.Owes → c'.cost later' ≤ budget) :
    c'.Ripens w g outcome budget val' later' := by
  subst hs
  have ha := amends_step w o c
  have hsize := ha.size_le
  have hold : ∀ t u', ¬ c.licence.works t → (c.step w o).machine.registry.get? t = some u' →
      t < c.machine.registry.size ∧ ∃ u a b cs, c.machine.registry.get? t = some u ∧
        u' = { u.flag a b with children := cs } := by
    intro t u' hw hu'
    have ht : t < c.machine.registry.size := Nat.lt_of_not_le fun hle => hw (Or.inr hle)
    obtain ⟨u, hu⟩ := Registry.exists_of_lt ht
    obtain ⟨a, b, cs, he⟩ := ha.unworked hw hu
    exact ⟨ht, u, a, b, cs, hu, Option.some.inj (hu'.symm.trans he)⟩
  refine ⟨accords, ⟨Nat.lt_of_lt_of_le h.root.1 hsize, (hval 0 h.root.1).trans h.root.2⟩, ?_, ?_,
    ?_, heard,
    spent, solvent⟩
  · intro t u' hu'
    cases he : u'.error with
    | none => rfl
    | some e =>
      rcases ha.errors hu' he with ⟨u, hu, hue⟩ | hfails
      · rw [h.errorless t u hu] at hue
        cases hue
      · exact (h.accords.no_failure.2.1 t e hfails).elim
  · intro t u' hu' hdr
    by_cases hw : c.licence.works t
    · exact (worked t u' hw hu').1 hdr
    · obtain ⟨_, u, a, b, cs, hu, rfl⟩ := hold t u' hw hu'
      exact h.driven t u hu ((stay t hw).mp hdr)
  · intro t u' hu'
    by_cases hw : c.licence.works t
    · exact (worked t u' hw hu').2
    · obtain ⟨ht, u, a, b, cs, hu, rfl⟩ := hold t u' hw hu'
      rcases h.tasks t u hu with hr | ⟨v, hr⟩ | hr
      · exact Or.inl ((stay t hw).mpr hr)
      · refine (hw (Or.inl ?_)).elim
        unfold footprint
        rw [hr]
      · exact Or.inr (Or.inr ((hr.mono hsize hval ht).spared a b cs))

/-- A step that makes no task and is not counted. -/
theorem next_of_not_makes (h : c.Ripens w g outcome budget val later) (hc : c.Sound begun)
    (hs : c.step w o = c')
    (makes : ¬ c.licence.makes) (steps : c'.machine.steps = c.machine.steps)
    (accords : Accords val c.machine.registry.size c'.stack c'.control later)
    (stay : ∀ t, ¬ c.footprint.works t → (c'.Drives t ↔ c.Drives t))
    (worked : ∀ t u u', c.footprint.works t → c.machine.registry.get? t = some u →
      c'.machine.registry.get? t = some u' → (c'.Drives t → u'.coroutine = Coroutine.ofRoot g t) ∧
        (c'.Drives t ∨ (∃ v, c'.control = .complete t v) ∨
          u'.Ripens val c.machine.registry.size g t))
    (heard : ∀ u, c'.machine.registry.get? 0 = some u → u.coroutine = Coroutine.ofRoot g 0 →
      w.Plans (w.Echoes g) (later.flatMap Assembly.calls) c'.machine.outer)
    (owes : c.Owes → c'.Owes ∨ c'.machine.registry.pending.length <
      c.machine.registry.pending.length) :
    c'.Ripens w g outcome budget val later := by
  have ha := hs ▸ amends_step w o c
  have hsize := ha.size_eq_of_not_makes makes
  have hpending := ha.length_pending_le makes (hs ▸ (sound_step w o hc).forest)
  have hcost : c'.cost later ≤ c.cost later := by
    unfold cost
    omega
  refine h.next hs (fun _ _ => rfl) (hsize ▸ accords)
    (fun t hw => stay t fun hf => hw (Or.inl hf)) ?_ heard
    (Nat.le_trans hcost h.spent) ?_
  · intro t u hw hu
    have hlt : t < c.machine.registry.size := hsize ▸ Registry.get?_eq_some_lt hu
    obtain ⟨u₀, hu₀⟩ := Registry.exists_of_lt hlt
    exact hsize ▸ worked t u₀ u (hw.resolve_right (Nat.not_le_of_lt hlt)) hu₀ hu
  · intro hn
    by_cases ho : c.Owes
    · have hlt := (owes ho).resolve_left hn
      have hspent := h.spent
      unfold cost at hspent ⊢
      omega
    · exact Nat.le_trans hcost (h.solvent ho)

/-- Most steps besides ask nothing of the world, and leave coroutines as they are or end them. -/
theorem carry (h : c.Ripens w g outcome budget val later) (hc : c.Sound begun)
    (hs : c.step w o = c')
    (makes : ¬ c.licence.makes) (steps : c'.machine.steps = c.machine.steps)
    (outer : c'.machine.outer = c.machine.outer)
    (accords : Accords val c.machine.registry.size c'.stack c'.control later)
    (stay : ∀ t, ¬ c.footprint.works t → (c'.Drives t ↔ c.Drives t))
    (worked : ∀ t u u', c.footprint.works t → c.machine.registry.get? t = some u →
      c'.machine.registry.get? t = some u' → (u'.coroutine = u.coroutine ∨ u'.coroutine = none) ∧
        (c'.Drives t → u'.coroutine = Coroutine.ofRoot g t) ∧
        (c'.Drives t ∨ (∃ v, c'.control = .complete t v) ∨
          u'.Ripens val c.machine.registry.size g t))
    (owes : c.Owes → c'.Owes ∨ c'.machine.registry.pending.length <
      c.machine.registry.pending.length) :
    c'.Ripens w g outcome budget val later := by
  refine h.next_of_not_makes hc hs makes steps accords stay
    (fun t u u' hf hu hu' => (worked t u u' hf hu hu').2)
    (fun u' hu' hco => ?_) owes
  rw [outer]
  by_cases hw : c.footprint.works 0
  · obtain ⟨u, hu⟩ := Registry.exists_of_lt h.root.1
    refine h.heard u hu ?_
    rcases (worked 0 u u' hw hu hu').1 with he | he
    · exact he ▸ hco
    · rw [he] at hco
      cases hco
  · obtain ⟨u, hu, he⟩ := h.root_unworked hs hw hu'
    exact h.heard u hu (he ▸ hco)

end Ripens

end Config

end Rehearsal
