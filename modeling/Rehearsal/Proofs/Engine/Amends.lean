import Rehearsal.Proofs.Engine.Footprint

/-!
# Amendments

A registry is only ever changed in a few ways: a task is worked on in place, fails, finishes, is
flagged or is made, and the buffer of finished tasks is emptied. `Amends` lists them, each under the
licence that a step needs for it; what no step takes back, and what only a licensed step brings
about, is read off that list once.
-/
namespace Rehearsal

structure Licence where
  /-- The tasks it works on. -/
  works : Nat → Prop
  /-- The tasks it sets running. -/
  drives : Nat → Prop
  /-- The task it makes fail, and with what. -/
  fails : Nat → Exn → Prop
  /-- The tasks it lets go. -/
  frees : Nat → Prop
  /-- Whether it makes tasks. -/
  makes : Prop

/-- Worked on in place, without being ended, failed or flagged. -/
structure Task.Adjusted (driven : Prop) (t t' : Task) : Prop where
  id : t'.id = t.id
  parent : t'.parent = t.parent
  detached : t'.detached = t.detached
  error : t'.error = t.error
  cancelled : t'.cancelled = t.cancelled
  abandoned : t'.abandoned = t.abandoned
  done : t'.done = t.done
  running : t'.running = true → t.running = true ∨ driven

theorem Task.Adjusted.of_eq {driven : Prop} {t t' : Task} (hid : t'.id = t.id)
    (hp : t'.parent = t.parent) (hdet : t'.detached = t.detached) (he : t'.error = t.error)
    (hc : t'.cancelled = t.cancelled) (ha : t'.abandoned = t.abandoned) (hd : t'.done = t.done)
    (hr : t'.running = true → t.running = true) : t.Adjusted driven t' :=
  ⟨hid, hp, hdet, he, hc, ha, hd, fun h => Or.inl (hr h)⟩

/-- The registry moves from `r` to `r'` by what the licence permits. -/
inductive Registry.Amends (l : Licence) : Registry → Registry → Prop
  | refl (r : Registry) : Amends l r r
  | trans {r r' r'' : Registry} (h : Amends l r r') (h' : Amends l r' r'') : Amends l r r''
  | modify {r : Registry} {t : Nat} {f : Task → Task} (works : l.works t)
      (adjusts : ∀ u : Task, u.Adjusted (l.drives t) (f u)) : Amends l r (r.modify t f)
  | fail {r : Registry} {t : Nat} {e : Exn} (works : l.works t) (fails : l.fails t e)
      (first : ∀ u, r.get? t = some u → u.error = none) :
      Amends l r (r.modify t fun u => { u with error := some e })
  | finish {r : Registry} {t : Nat} {v : Value} (works : l.works t) :
      Amends l r ((r.modify t (·.finish v)).retire t)
  | flagged {r r' : Registry} {gone : Nat → Prop} (h : Flagged r r' gone)
      (frees : ∀ i, gone i → l.frees i) : Amends l r r'
  | create {r : Registry} {name : String} {wait : Wait} {parent : Option Nat} {detached : Bool}
      {entry : Option Entry} (makes : l.makes) (orphan : detached = true → parent = none) :
      Amends l r (r.create name wait parent detached none entry).1
  | reap (r : Registry) : Amends l r r.reap.1

/-- What an amendment leaves of task `i`. -/
structure Task.Amended (l : Licence) (i : Nat) (t t' : Task) : Prop
    extends Task.Onward (l.drives i) t t' where
  id : t'.id = t.id
  detached : t'.detached = t.detached
  leaves : t'.abandoned = true → t.abandoned = true ∨ l.frees i
  failed : ∀ e, t.error = some e → t'.error = some e
  fails : ∀ e, t'.error = some e → t.error = some e ∨ l.fails i e
  spared : ¬ l.works i → t.Spared t'

namespace Task.Amended

variable {l : Licence} {i : Nat}

protected theorem refl (t : Task) : t.Amended l i t where
  toOnward := .refl t
  id := rfl
  detached := rfl
  leaves := Or.inl
  failed := fun _ he => he
  fails := fun _ => Or.inl
  spared := fun _ => .refl t

protected theorem trans {t t' t'' : Task} (h : t.Amended l i t') (h' : t'.Amended l i t'') :
    t.Amended l i t'' where
  toOnward := h.toOnward.trans h'.toOnward
  id := h'.id.trans h.id
  detached := h'.detached.trans h.detached
  leaves := fun ha => (h'.leaves ha).elim h.leaves Or.inr
  failed := fun e he => h'.failed e (h.failed e he)
  fails := fun e he => (h'.fails e he).elim (h.fails e) Or.inr
  spared := fun hi => (h.spared hi).trans (h'.spared hi)

theorem of_adjusted {t t' : Task} (h : t.Adjusted (l.drives i) t') (hi : l.works i) :
    t.Amended l i t' where
  parent := h.parent
  running := h.running
  done := fun hd => h.done.trans hd
  cancelled := fun hc => h.cancelled.trans hc
  abandoned := fun ha => h.abandoned.trans ha
  id := h.id
  detached := h.detached
  leaves := fun ha => Or.inl (h.abandoned ▸ ha)
  failed := fun _ he => h.error.trans he
  fails := fun _ he => Or.inl (h.error ▸ he)
  spared := fun hn => (hn hi).elim

theorem of_flag (t : Task) (c lv : Bool) (hl : lv = true → l.frees i) :
    t.Amended l i (t.flag c lv) where
  toOnward := t.onward_flag c lv
  id := rfl
  detached := rfl
  leaves := fun ha => (Bool.or_eq_true _ _ ▸ ha).imp_right hl
  failed := fun _ he => he
  fails := fun _ => Or.inl
  spared := fun _ => ⟨rfl, rfl, rfl, rfl, rfl⟩

end Task.Amended

namespace Registry

/-- A parent that takes on a child is otherwise left alone. -/
theorem addChild_amended {l : Licence} {i : Nat} (t : Task) (c : Nat) :
    t.Amended l i (t.addChild c) := by
  unfold Task.addChild
  split
  · exact .refl t
  · exact ⟨.of_eq rfl rfl rfl rfl id, rfl, rfl, Or.inl, fun _ => id, fun _ => Or.inl,
      fun _ => ⟨rfl, rfl, rfl, rfl, rfl⟩⟩

/-- Making a task leaves the others alone, whether or not the parent is there. -/
theorem get?_create_lt {r : Registry} (name : String) (wait : Wait) (parent : Option Nat)
    (detached : Bool) (entry : Option Entry) {i : Nat} {t : Task} (ht : r.get? i = some t) :
    (r.create name wait parent detached none entry).1.get? i = some t ∨
      (r.create name wait parent detached none entry).1.get? i = some (t.addChild r.size) := by
  have hpush : (r.tasks.push (Task.fresh r.size name wait parent detached none entry))[i]? =
      some t := by
    rw [Array.getElem?_push_lt (get?_eq_some_lt ht)]
    exact (Array.getElem?_eq_getElem (get?_eq_some_lt ht)).symm.trans ht
  cases parent with
  | none => exact Or.inl hpush
  | some q =>
    have hget : (r.create name wait (some q) detached none entry).1.get? i =
        if q = i then some (t.addChild r.size) else some t := by
      show (Array.modify _ q _)[i]? = _
      rw [Array.getElem?_modify, hpush]
      split <;> rfl
    rw [hget]
    split
    · exact Or.inr rfl
    · exact Or.inl rfl

/-- Whatever is there after a task was made was there before, or is the new task. -/
theorem get?_create_inv {r : Registry} {name : String} {wait : Wait} {parent : Option Nat}
    {detached : Bool} {entry : Option Entry} {i : Nat} {t' : Task}
    (ht' : (r.create name wait parent detached none entry).1.get? i = some t') :
    (∃ t, r.get? i = some t ∧ (t' = t ∨ t' = t.addChild r.size)) ∨
      (t'.detached = detached ∧ t'.parent = parent ∧ t'.error = none ∧ t'.abandoned = false) := by
  cases ht : r.get? i with
  | some t =>
    left
    refine ⟨t, rfl, ?_⟩
    rcases get?_create_lt name wait parent detached entry ht with he | he <;>
      rw [ht', Option.some.injEq] at he
    · exact Or.inl he
    · exact Or.inr he
  | none =>
    right
    have hfresh : ∀ t, (r.tasks.push (Task.fresh r.size name wait parent detached none entry))[i]? =
        some t → t = Task.fresh r.size name wait parent detached none entry := by
      intro t h
      rw [Array.getElem?_push] at h
      split at h
      · exact (Option.some.inj h).symm
      · rw [show r.tasks[i]? = none from ht] at h
        cases h
    cases parent with
    | none => rw [hfresh t' ht']; exact ⟨rfl, rfl, rfl, rfl⟩
    | some q =>
      have hget : (Array.modify (r.tasks.push (Task.fresh r.size name wait (some q) detached none
          entry)) q (·.addChild r.size))[i]? = some t' := ht'
      rw [Array.getElem?_modify] at hget
      split at hget
      · obtain ⟨t, ht, rfl⟩ := Option.map_eq_some_iff.mp hget
        rw [hfresh t ht]
        unfold Task.addChild
        split <;> exact ⟨rfl, rfl, rfl, rfl⟩
      · rw [hfresh t' hget]
        exact ⟨rfl, rfl, rfl, rfl⟩

/-- Detached tasks have no parent. -/
def Orphans (r : Registry) : Prop :=
  ∀ i t, r.get? i = some t → t.detached = true → t.parent = none

theorem Orphans.modify {r : Registry} {t : Nat} {f : Task → Task} (h : r.Orphans)
    (hf : ∀ u : Task, (f u).detached = u.detached ∧ (f u).parent = u.parent) :
    (r.modify t f).Orphans := by
  intro i u' hu' hd
  rw [get?_modify] at hu'
  split at hu'
  · obtain ⟨u, hu, rfl⟩ := Option.map_eq_some_iff.mp hu'
    rw [(hf u).2]
    exact h i u hu ((hf u).1 ▸ hd)
  · exact h i u' hu' hd

namespace Amends

variable {l : Licence} {r r' : Registry}

theorem kept (h : r.Amends l r') :
    ∀ {i t}, r.get? i = some t → ∃ t', r'.get? i = some t' ∧ t.Amended l i t' := by
  induction h with
  | refl r => exact fun ht => ⟨_, ht, .refl _⟩
  | trans _ _ ih ih' =>
    intro i t ht
    obtain ⟨t', ht', h⟩ := ih ht
    obtain ⟨t'', ht'', h'⟩ := ih' ht'
    exact ⟨t'', ht'', h.trans h'⟩
  | @modify r j f works adjusts =>
    intro i t ht
    by_cases hi : i = j
    · subst hi
      exact ⟨_, get?_modify_of_eq_some f ht, .of_adjusted (adjusts t) works⟩
    · exact ⟨t, by rw [get?_modify_ne hi]; exact ht, .refl t⟩
  | @fail r j e works fails first =>
    intro i t ht
    by_cases hi : i = j
    · subst hi
      have hnone := first t ht
      refine ⟨_, get?_modify_of_eq_some _ ht, .of_eq rfl rfl rfl rfl id, rfl, rfl, Or.inl, ?_, ?_,
        fun hn => (hn works).elim⟩
      · intro e' he'
        rw [hnone] at he'
        cases he'
      · rintro e' ⟨⟩
        exact Or.inr fails
    · exact ⟨t, by rw [get?_modify_ne hi]; exact ht, .refl t⟩
  | @finish r j v works =>
    intro i t ht
    rw [get?_retire]
    by_cases hi : i = j
    · subst hi
      refine ⟨_, get?_modify_of_eq_some _ ht, ⟨rfl, Or.inl, fun _ => rfl, id, id⟩, rfl, rfl, Or.inl,
        fun _ => id, fun _ => Or.inl, fun hn => (hn works).elim⟩
    · exact ⟨t, by rw [get?_modify_ne hi]; exact ht, .refl t⟩
  | flagged h frees =>
    intro i t ht
    obtain ⟨c, lv, he, hg⟩ := h.eq_some ht
    exact ⟨_, he, .of_flag t c lv fun hl => frees i (hg hl)⟩
  | create makes orphan =>
    intro i t ht
    rcases get?_create_lt _ _ _ _ _ ht with he | he
    · exact ⟨t, he, .refl t⟩
    · exact ⟨_, he, addChild_amended t _⟩
  | reap r => exact fun ht => ⟨_, ht, .refl _⟩

theorem size_le (h : r.Amends l r') : r.size ≤ r'.size := by
  by_contra hlt
  obtain ⟨t, ht⟩ := exists_of_lt (Nat.lt_of_not_le hlt)
  obtain ⟨t', ht', _⟩ := h.kept ht
  exact Nat.lt_irrefl _ (get?_eq_some_lt ht')

/-- Without leave to make tasks there are no more of them. -/
theorem size_eq_of_not_makes (h : r.Amends l r') (hm : ¬ l.makes) : r'.size = r.size := by
  induction h with
  | refl => rfl
  | trans _ _ ih ih' => exact ih'.trans ih
  | modify => exact size_modify ..
  | fail => exact size_modify ..
  | finish => rw [size_retire, size_modify]
  | flagged h _ => exact h.size
  | create makes _ => exact (hm makes).elim
  | reap => rfl

/-- Detached tasks are made without a parent, and no task is given one. -/
theorem orphans (h : r.Amends l r') (ho : r.Orphans) : r'.Orphans := by
  induction h with
  | refl => exact ho
  | trans _ _ ih ih' => exact ih' (ih ho)
  | modify _ adjusts => exact ho.modify fun u => ⟨(adjusts u).detached, (adjusts u).parent⟩
  | fail => exact ho.modify fun _ => ⟨rfl, rfl⟩
  | finish =>
    intro i t ht
    rw [get?_retire] at ht
    exact ho.modify (f := (·.finish _)) (fun _ => ⟨rfl, rfl⟩) i t ht
  | flagged h _ =>
    intro i t' ht' hd
    obtain ⟨t, c, lv, ht, rfl, _⟩ := h.of_eq_some ht'
    exact ho i t ht hd
  | @create r _ _ _ _ _ _ orphan =>
    intro i t' ht' hd
    rcases get?_create_inv ht' with ⟨t, ht, rfl | rfl⟩ | ⟨hdet, hp, _⟩
    · exact ho i _ ht hd
    · have hkin := addChild_amended (l := l) (i := i) t r.size
      exact hkin.parent.trans (ho i t ht (hkin.detached ▸ hd))
    · exact hp.trans (orphan (hdet ▸ hd))
  | reap => exact ho

/-- Tasks that were there keep what they were; nothing else was there. -/
theorem origin (h : r.Amends l r') {i : Nat} {t' : Task} (ht' : r'.get? i = some t')
    (hi : i < r.size) : ∃ t, r.get? i = some t ∧ t.Amended l i t' := by
  obtain ⟨t, ht⟩ := exists_of_lt hi
  obtain ⟨t'', ht'', h⟩ := h.kept ht
  rw [ht', Option.some.injEq] at ht''
  exact ⟨t, ht, ht'' ▸ h⟩

/-- Whatever is there was there before, or was made without error or flag. -/
theorem traced (h : r.Amends l r') :
    ∀ {i t'}, r'.get? i = some t' → ∃ t, t.Amended l i t' ∧
      (r.get? i = some t ∨ (t.error = none ∧ t.abandoned = false)) := by
  have hold : ∀ {r r' : Registry}, r.Amends l r' → r'.size = r.size → ∀ {i t'},
      r'.get? i = some t' → ∃ t, t.Amended l i t' ∧
        (r.get? i = some t ∨ (t.error = none ∧ t.abandoned = false)) := by
    intro r r' h hs i t' ht'
    obtain ⟨t, ht, ha⟩ := h.origin ht' (hs ▸ get?_eq_some_lt ht')
    exact ⟨t, ha, Or.inl ht⟩
  induction h with
  | refl => exact fun ht => ⟨_, .refl _, Or.inl ht⟩
  | trans _ _ ih ih' =>
    intro i t'' ht''
    obtain ⟨t', ha', hr'⟩ := ih' ht''
    rcases hr' with ht' | hblank
    · obtain ⟨t, ha, hr⟩ := ih ht'
      exact ⟨t, ha.trans ha', hr⟩
    · exact ⟨t', ha', Or.inr hblank⟩
  | modify works adjusts => exact hold (.modify works adjusts) (size_modify ..)
  | fail works fails first => exact hold (.fail works fails first) (size_modify ..)
  | finish works => exact hold (.finish works) (by rw [size_retire, size_modify])
  | flagged h frees => exact hold (.flagged h frees) h.size
  | reap r => exact hold (.reap r) rfl
  | create _ _ =>
    intro i t' ht'
    rcases get?_create_inv ht' with ⟨t, ht, rfl | rfl⟩ | ⟨_, _, hblank⟩
    · exact ⟨_, .refl _, Or.inl ht⟩
    · exact ⟨t, addChild_amended t _, Or.inl ht⟩
    · exact ⟨t', .refl t', Or.inr hblank⟩

/-- An error was there before, or its task was licensed to fail of it. -/
theorem errors (h : r.Amends l r') {i : Nat} {t' : Task} {e : Exn} (ht' : r'.get? i = some t')
    (he : t'.error = some e) : (∃ t, r.get? i = some t ∧ t.error = some e) ∨ l.fails i e := by
  obtain ⟨t, ha, hr⟩ := h.traced ht'
  refine (ha.fails e he).imp_left fun he => ⟨t, hr.resolve_right fun hblank => ?_, he⟩
  rw [hblank.1] at he
  cases he

/-- Whoever has been let go of was so before, or the licence frees it. -/
theorem gone (h : r.Amends l r') {i : Nat} {t' : Task} (ht' : r'.get? i = some t')
    (ha : t'.abandoned = true) : (∃ t, r.get? i = some t ∧ t.abandoned = true) ∨ l.frees i := by
  obtain ⟨t, hta, hr⟩ := h.traced ht'
  refine (hta.leaves ha).imp_left fun ha => ⟨t, hr.resolve_right fun hblank => ?_, ha⟩
  rw [hblank.2] at ha
  cases ha

/-- Amendments stay within the footprint of their licence. -/
theorem moves (h : r.Amends l r') {p : Footprint} (hw : ∀ i < r.size, l.works i → p.works i)
    (hd : ∀ i < r.size, l.drives i → p.drives i) : r.Moves p r' := by
  refine ⟨fun {i t} ht => ?_⟩
  obtain ⟨t', ht', ha⟩ := h.kept ht
  have hi := get?_eq_some_lt ht
  refine ⟨t', ht', { ha.toOnward with running := fun hr => (ha.running hr).imp_right (hd i hi) },
    ?_⟩
  exact fun hn => ha.spared fun hworks => hn (hw i hi hworks)

end Amends

end Registry

end Rehearsal
