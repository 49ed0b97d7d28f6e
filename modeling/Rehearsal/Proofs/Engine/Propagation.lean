import Rehearsal.Proofs.Engine.Ending

/-!
# Failures on their way up

A failure is delivered to the parent of the failed task, which then waits for nothing any more and
is taken to be thrown into, or to fail itself. A parent that runs, has failed or has been let go
hears nothing.
-/
namespace Rehearsal

variable {σ : Type} {begun : Nat → Prop} {stack : List Frame} {p : Nat} {u : Task}

namespace Registry

/-- Letting go of unfinished children of `parent` other than `failed`, one by one. -/
def letGoOthers (r : Registry) (parent failed : Nat) (members : List Nat) : Registry :=
  members.foldl (fun r other =>
    match r.get? other with
    | some task =>
      if other != failed && task.parent == some parent && !task.done then r.letGo other else r
    | none => r) r

/-- Only children of the parent are let go, and not the failed one. -/
theorem letGoOthers_flagged (r : Registry) (parent failed : Nat) (members : List Nat) :
    Flagged r (r.letGoOthers parent failed members)
      fun i => i ≠ failed ∧ ∃ t, r.get? i = some t ∧ t.parent = some parent := by
  refine Flagged.foldl members fun r' hr' other _ => ?_
  cases ho : r'.get? other with
  | none => exact .refl _ _
  | some task =>
    dsimp only
    split
    · rename_i hc
      simp only [Bool.and_eq_true, bne_iff_ne, beq_iff_eq] at hc
      refine (letGo_flagged r' other).mono ?_
      rintro i rfl
      obtain ⟨t, _, _, ht, rfl, _⟩ := hr'.of_eq_some ho
      exact ⟨hc.1.1, t, ht, hc.1.2⟩
    · exact .refl _ _

/-- Whoever of them is an unfinished child of the parent has been cancelled and let go. -/
theorem letGoOthers_gone {parent failed d : Nat} {members : List Nat} {r : Registry}
    (hd : d ∈ members) (hne : d ≠ failed) {t : Task} (ht : r.get? d = some t)
    (hp : t.parent = some parent) (hopen : t.done = false) :
    ∃ t', (r.letGoOthers parent failed members).get? d = some t' ∧ t'.cancelled = true ∧
      t'.abandoned = true := by
  unfold letGoOthers
  induction members generalizing r t with
  | nil => cases hd
  | cons m ms ih =>
    rw [List.foldl_cons]
    by_cases hm : d = m
    · subst hm
      have hlet : (match r.get? d with
          | some task =>
            if d != failed && task.parent == some parent && !task.done then r.letGo d else r
          | none => r) = r.letGo d := by
        simp [ht, hp, hopen, hne]
      rw [hlet]
      obtain ⟨t', ht', hc, ha⟩ := get?_letGo_self ht
      obtain ⟨c, l, he, _⟩ := (letGoOthers_flagged (r.letGo d) parent failed ms).eq_some ht'
      exact ⟨_, he, by simp [Task.flag, hc], by simp [Task.flag, ha]⟩
    · have hd' : d ∈ ms := (List.mem_cons.mp hd).resolve_left hm
      have hflag := letGoOthers_flagged r parent failed [m]
      obtain ⟨c, l, he, _⟩ := hflag.eq_some ht
      exact ih hd' he hp hopen

end Registry

/-- A task that is blocked is so by an interruption that has no answer. -/
theorem Task.Standing.blocked {r : Registry} {news : List Nat} (h : u.Standing r news)
    (hd : u.done = false) (hr : u.running = false) (hf : ¬ u.Fresh) : ∃ i, u.Blocked i := by
  cases h with
  | ended hd' _ => exact (Bool.false_ne_true (hd.symm.trans hd')).elim
  | fresh h => exact (hf h).elim
  | active _ hr' => exact (Bool.false_ne_true (hr.symm.trans hr')).elim
  | waiting i h => exact ⟨i, h.toBlocked⟩
  | holding i h => exact ⟨i, h.toBlocked⟩

namespace Config

variable {m : Machine σ}

/-- What dropping the interruption of `p` leaves of the registry. -/
theorem abandon_registry {i : Interruption} (hu : m.registry.get? p = some u)
    (hi : u.interruption = some i) (failed : Nat) :
    (abandon m p failed).2.registry =
      if i.kind = .join ∨ i.kind = .children then
        m.registry.modify p fun u => { u with interruption := none }
      else (m.registry.modify p fun u => { u with interruption := none }).letGoOthers p failed
        i.pending.waitingOn := by
  have hget : m.get? p = some u := hu
  unfold abandon
  simp only [hget, Option.bind_some, hi, Bool.or_eq_true, decide_eq_true_eq]
  split <;> rfl

/-- A blocked task that has been taken no longer waits. Of its children some may have been let go.
-/
theorem core_abandon {i : Interruption} (core : Core begun m.registry [] stack (some p))
    (nested : Nested none stack) (hu : m.registry.get? p = some u)
    (hi : u.Blocked i) (failed : Nat) :
    Core begun (abandon m p failed).2.registry [] stack (some p) ∧
      ∃ c, (abandon m p failed).2.registry.get? p =
        some (Task.flag c false { u with interruption := none }) := by
  have hre : u.Retied m.registry { u with interruption := none } :=
    .of_unfinished rfl rfl rfl hi.done hi.done rfl
  have core' := core.modify hu (fun u => { u with interruption := none }) hre rfl
  have hu' := Registry.get?_modify_of_eq_some (fun u => { u with interruption := none }) hu
  rw [abandon_registry hu hi.interruption failed]
  split
  · exact ⟨core', false, by rw [hu', Task.flag_false]⟩
  · have hflag := Registry.letGoOthers_flagged
      (m.registry.modify p fun u => { u with interruption := none }) p failed i.pending.waitingOn
    refine ⟨core'.flagged (· = p) hflag ?_ ?_ ?_, ?_⟩
    · rintro j t ⟨_, t', ht', hp⟩ ht
      rw [ht', Option.some.injEq] at ht
      exact ⟨p, ht ▸ hp, rfl⟩
    · rintro j rfl
      exact Or.inl rfl
    · rintro c hc rfl
      exact core.aside c.task rfl (nested.composite_runner hc)
    · obtain ⟨c, l, hp, hl⟩ := hflag.eq_some hu'
      have hl' : l = false := by
        cases l with
        | false => rfl
        | true =>
          obtain ⟨_, t, ht, hpar⟩ := hl rfl
          exact (Nat.lt_irrefl p (core'.forest.parent_lt ht hpar)).elim
      exact ⟨c, hl' ▸ hp⟩

/-- A parent that neither runs nor has failed nor has been let go is delivered the failure. -/
theorem propagate_eq (o : RunOptions) {d : Nat} {v : Task} (e : Exn) (hd : m.get? d = some v)
    (hp : v.parent = some p) (ha : v.abandoned = false) (hu : m.get? p = some u)
    (hr : u.running = false) (herr : u.error = none) (hab : u.abandoned = false) :
    propagate o m stack d e =
      if u.coroutine.isNone then ⟨(abandon m p d).2, stack, .fail p e⟩
      else ⟨if (abandon m p d).1 then (abandon m p d).2
        else { (abandon m p d).2 with
          registry := (abandon m p d).2.registry.cancelAll u.children },
        stack, .drive p (.throw e)⟩ := by
  unfold propagate
  simp only [hd, hp, ha, hu, hr, herr, hab, Option.isSome_none, Bool.or_self, Bool.false_eq_true,
    if_false]

theorem sound_propagate (o : RunOptions) {t : Nat} {e : Exn}
    (h : Rehearsal.Sound begun m.registry stack (.propagate t e)) :
    (propagate o m stack t e).Sound begun := by
  cases h with
  | @propagating _ v _ _ core nested hv hparent =>
    have hget : m.get? t = some v := hv
    unfold propagate
    simp only [hget]
    cases hp : v.parent with
    | none =>
      dsimp only
      split
      · exact .resting core nested
      · exact .aborted _ core.forest
    | some p =>
      obtain ⟨u, hu, hd, hc⟩ := hparent p hp
      have hgetp : m.get? p = some u := hu
      simp only [hgetp]
      split
      · exact .resting core nested
      split
      · exact .resting core nested
      · rename_i hdeaf
        simp only [Bool.or_eq_true, not_or, Bool.not_eq_true, Option.isSome_eq_false_iff,
          Option.isNone_iff_eq_none] at hdeaf
        obtain ⟨⟨hr, herr⟩, hab⟩ := hdeaf
        have hn : p ∉ runners stack := by
          rw [← core.running_iff hu, hr]
          exact Bool.false_ne_true
        obtain ⟨i, hi⟩ := (core.stands hu).blocked hd hr fun hf => hc hf.children
        obtain ⟨core', c, hu'⟩ := core_abandon (core.take hn) nested hu hi t
        generalize abandon m p t = dropped at core' hu' ⊢
        obtain ⟨direct, m'⟩ := dropped
        dsimp only at core' hu' ⊢
        have free : (Task.flag c false { u with interruption := none }).Free := ⟨hd, rfl, herr⟩
        split
        · exact .failing e core' nested hu' free hr
        · rename_i hco
          have hpoised : ∀ c, (Task.flag c false { u with interruption := none }).Poised
              (.throw e) := by
            intro c
            refine ⟨⟨hd, rfl, herr⟩, ?_, fun _ _ => ?_⟩
            · simpa [Task.flag, Option.isNone_iff_eq_none, Option.isSome_iff_ne_none] using hco
            · simpa [Task.flag] using hab
          cases direct with
          | true => exact .driving core' nested hu' (hpoised c)
          | false =>
            have hflag := Registry.cancelAll_flagged m'.registry u.children fun _ => False
            obtain ⟨c', l, hu'', hl⟩ := hflag.eq_some hu'
            cases l with
            | true => exact (hl rfl).elim
            | false =>
              rw [Task.flag_flag] at hu''
              exact .driving (core'.cancelled hflag) nested hu'' (hpoised _)

end Config

end Rehearsal
