import Rehearsal.Proofs.Task.Forest

/-!
# Tasks one behind another

While a sequential program runs, its unfinished tasks form a chain from the root: each is blocked
behind the next, and only the last can go on. `Chain` collects the generators of those that are
blocked, innermost first. A chain stands as long as its tasks are left alone; `Around` says of two
registries which are.
-/
namespace Rehearsal

theorem Interruption.onChild_ne_children (id : Nat) :
    (onChild id).kind ≠ .children := by simp [onChild]

theorem Interruption.onChild_ne_join (id : Nat) : (onChild id).kind ≠ .join := by simp [onChild]

structure Task.Still (t t' : Task) : Prop where
  coroutine : t'.coroutine = t.coroutine
  entry : t'.entry = t.entry
  interruption : t'.interruption = t.interruption
  result : t'.result = t.result
  abandoned : t'.abandoned = t.abandoned
  done : t'.done = t.done

namespace Task.Still

variable {t t' t'' : Task}

protected theorem refl (t : Task) : t.Still t := ⟨rfl, rfl, rfl, rfl, rfl, rfl⟩

protected theorem trans (h : t.Still t') (h' : t'.Still t'') : t.Still t'' :=
  ⟨h'.coroutine.trans h.coroutine, h'.entry.trans h.entry, h'.interruption.trans h.interruption,
    h'.result.trans h.result, h'.abandoned.trans h.abandoned, h'.done.trans h.done⟩

theorem addChild (t : Task) (c : Nat) : t.Still (t.addChild c) := by
  unfold Task.addChild
  split <;> exact ⟨rfl, rfl, rfl, rfl, rfl, rfl⟩

theorem flag (t : Task) (c : Bool) : t.Still (t.flag c false) :=
  ⟨rfl, rfl, rfl, rfl, Bool.or_false _, rfl⟩

end Task.Still

namespace Registry

structure Around (touched : Nat → Prop) (r r' : Registry) : Prop where
  kept : ∀ {i t}, ¬ touched i → r.get? i = some t → ∃ t', r'.get? i = some t' ∧ t.Still t'
  old : ∀ {i t'}, ¬ touched i → r'.get? i = some t' → ∃ t, r.get? i = some t ∧ t.Still t'

namespace Around

variable {touched : Nat → Prop} {r r' r'' : Registry}

theorem of_get? (h : ∀ i, r'.get? i = r.get? i) : Around touched r r' :=
  ⟨fun _ ht => ⟨_, (h _).trans ht, .refl _⟩, fun _ ht => ⟨_, (h _).symm.trans ht, .refl _⟩⟩

protected theorem trans (h : Around touched r r') (h' : Around touched r' r'') :
    Around touched r r'' where
  kept := by
    intro i t hi ht
    obtain ⟨t', ht', hs⟩ := h.kept hi ht
    obtain ⟨t'', ht'', hs'⟩ := h'.kept hi ht'
    exact ⟨t'', ht'', hs.trans hs'⟩
  old := by
    intro i t'' hi ht''
    obtain ⟨t', ht', hs'⟩ := h'.old hi ht''
    obtain ⟨t, ht, hs⟩ := h.old hi ht'
    exact ⟨t, ht, hs.trans hs'⟩

/-- Any task may be changed that is touched. -/
theorem modify (a : Nat) (f : Task → Task) : Around (· = a) r (r.modify a f) where
  kept := fun hi ht => ⟨_, (get?_modify_ne hi).trans ht, .refl _⟩
  old := fun hi ht => ⟨_, (get?_modify_ne hi).symm.trans ht, .refl _⟩

/-- A task may be changed in what no chain rests on. -/
theorem modify_still {a : Nat} {f : Task → Task} (hf : ∀ t, r.get? a = some t → t.Still (f t)) :
    Around touched r (r.modify a f) where
  kept := by
    intro i t _ ht
    rw [get?_modify, ht]
    split
    · rename_i hi
      exact ⟨_, rfl, hf t (hi ▸ ht)⟩
    · exact ⟨_, rfl, .refl t⟩
  old := by
    intro i t' _ ht'
    rw [get?_modify] at ht'
    split at ht'
    · rename_i hi
      obtain ⟨t, ht, rfl⟩ := Option.map_eq_some_iff.mp ht'
      exact ⟨t, ht, hf t (hi ▸ ht)⟩
    · exact ⟨t', ht', .refl t'⟩

/-- Cancelling touches nothing. -/
theorem flagged (h : Flagged r r' fun _ => False) : Around touched r r' where
  kept := by
    intro i t _ ht
    obtain ⟨c, l, he, hl⟩ := h.eq_some ht
    cases l with
    | false => exact ⟨_, he, .flag t c⟩
    | true => exact (hl rfl).elim
  old := by
    intro i t' _ ht'
    obtain ⟨t, c, l, ht, rfl, hl⟩ := h.of_eq_some ht'
    cases l with
    | false => exact ⟨t, ht, .flag t c⟩
    | true => exact (hl rfl).elim

/-- Making a task touches no other. -/
theorem create (name : String) (wait : Wait) {p : Nat} (hp : p < r.size) (detached : Bool)
    (entry : Option Entry) :
    Around (· = r.size) r (r.create name wait (some p) detached none entry).1 where
  kept := by
    intro i t hi ht
    have hparent : ∀ q, some p = some q → q < r.size := by
      rintro q ⟨⟩
      exact hp
    rw [get?_create hparent, if_neg hi, ht]
    split
    · exact ⟨_, rfl, .addChild t _⟩
    · exact ⟨t, rfl, .refl t⟩
  old := by
    intro i t' hi ht'
    have hparent : ∀ q, some p = some q → q < r.size := by
      rintro q ⟨⟩
      exact hp
    rcases get?_create_cases hparent ht' with ⟨he, _⟩ | ⟨_, t, ht, rfl⟩
    · exact (hi he).elim
    · split
      · exact ⟨t, ht, .addChild t _⟩
      · exact ⟨t, ht, .refl t⟩

end Around

/-! ### Chains -/

/-- Task `a` stands at the end of the chain that the tasks `above` form, nearest first: each is
blocked behind the one before, and their generators are `frames`. -/
inductive Chain (r : Registry) : Nat → List Nat → List Nat → Prop
  | root : Chain r 0 [] []
  | behind {a p : Nat} {t : Task} {fs above frames : List Nat} (lt : p < a)
      (task : r.get? p = some t)
      (blocked : t.interruption = some (.onChild a)) (coroutine : t.coroutine = some ⟨fs, true⟩)
      (live : fs ≠ []) (kept : t.abandoned = false) (outer : Chain r p above frames) :
      Chain r a (p :: above) (fs ++ frames)

def Alone (r : Registry) (ids : List Nat) : Prop :=
  ∀ i t, r.get? i = some t → t.done = false → i ∈ ids

/-- Task `a` is the last of the unfinished tasks, and those before it wait for it one behind
another. -/
structure Last (r : Registry) (a : Nat) (t : Task) (frames : List Nat) : Prop where
  task : r.get? a = some t
  undone : t.done = false
  kept : t.abandoned = false
  chain : ∃ above, r.Chain a above frames ∧ r.Alone (a :: above)

variable {touched : Nat → Prop} {r r' : Registry} {a : Nat} {t t' : Task}
    {above ids frames : List Nat}

namespace Chain

theorem lt (h : r.Chain a above frames) {p : Nat} (hp : p ∈ above) : p < a := by
  induction h with
  | root => cases hp
  | behind hlt _ _ _ _ _ _ ih =>
    rcases List.mem_cons.mp hp with rfl | hp
    · exact hlt
    · exact Nat.lt_trans (ih hp) hlt

theorem not_mem (h : r.Chain a above frames) : a ∉ above := fun ha => Nat.lt_irrefl a (h.lt ha)

theorem around (h : r.Chain a above frames) (hr : Around touched r r')
    (hn : ∀ p ∈ above, ¬ touched p) :
    r'.Chain a above frames := by
  induction h with
  | root => exact .root
  | behind hlt task blocked coroutine live kept _ ih =>
    obtain ⟨t', ht', hs⟩ := hr.kept (hn _ (List.mem_cons_self ..)) task
    exact .behind hlt ht' (hs.interruption.trans blocked) (hs.coroutine.trans coroutine) live
      (hs.abandoned.trans kept) (ih fun p hp => hn p (List.mem_cons_of_mem _ hp))

/-- Only the first task above `a` waits for it; the others wait for tasks of the chain. -/
theorem waits (h : r.Chain a above frames) {p : Nat} (hp : p ∈ above) :
    ∃ t c, r.get? p = some t ∧ t.interruption = some (.onChild c) ∧
      (c ∈ above ∨ (c = a ∧ ∃ rest, above = p :: rest)) := by
  induction h with
  | root => cases hp
  | behind _ task blocked _ _ _ _ ih =>
    rcases List.mem_cons.mp hp with rfl | hp
    · exact ⟨_, _, task, blocked, Or.inr ⟨rfl, _, rfl⟩⟩
    · obtain ⟨t, c, ht, hi, hc⟩ := ih hp
      refine ⟨t, c, ht, hi, Or.inl ?_⟩
      rcases hc with hc | ⟨rfl, _⟩
      · exact List.mem_cons_of_mem _ hc
      · exact List.mem_cons_self ..

end Chain

namespace Alone

theorem around (h : r.Alone ids) (hr : Around touched r r') (ht : ∀ i, touched i → i ∈ ids) :
    r'.Alone ids := by
  intro i t' ht' hd
  by_cases hi : touched i
  · exact ht i hi
  · obtain ⟨t, ht, hs⟩ := hr.old hi ht'
    exact h i t ht (hs.done ▸ hd)

/-- The task that was touched is over. -/
theorem finish (h : r.Alone (a :: ids)) (hr : Around (· = a) r r') (ha : r'.get? a = some t')
    (hd : t'.done = true) : r'.Alone ids := by
  intro i v hv hvd
  by_cases hi : i = a
  · rw [hi, ha, Option.some.injEq] at hv
    rw [← hv, hd] at hvd
    cases hvd
  · obtain ⟨u, hu, hs⟩ := hr.old hi hv
    exact (List.mem_cons.mp (h i u hu (hs.done ▸ hvd))).resolve_left hi

/-- A new task is unfinished. -/
theorem create (h : r.Alone ids) (hr : Around (· = a) r r') : r'.Alone (a :: ids) := by
  intro i v hv hvd
  by_cases hi : i = a
  · exact hi ▸ List.mem_cons_self ..
  · obtain ⟨u, hu, hs⟩ := hr.old hi hv
    exact List.mem_cons_of_mem _ (h i u hu (hs.done ▸ hvd))

end Alone

namespace Last

/-- The last task is worked on. -/
theorem work (h : r.Last a t frames) (hr : Around (· = a) r r') (ht' : r'.get? a = some t')
    (hd : t'.done = t.done) (hk : t'.abandoned = t.abandoned) : r'.Last a t' frames := by
  obtain ⟨above, chain, alone⟩ := h.chain
  refine ⟨ht', hd.trans h.undone, hk.trans h.kept, above, chain.around hr fun p hp he => ?_,
    alone.around hr fun i hi => hi ▸ List.mem_cons_self ..⟩
  exact chain.not_mem (he ▸ hp)

/-- The last task is changed. -/
theorem modify (h : r.Last a t frames) (f : Task → Task) (hd : (f t).done = t.done)
    (hk : (f t).abandoned = t.abandoned) : (r.modify a f).Last a (f t) frames :=
  h.work (.modify a f) (get?_modify_of_eq_some f h.task) hd hk

/-- All children of the last task are over. -/
theorem childless (h : r.Last a t frames) (hf : r.Forest) {c : Nat} (hc : c ∈ t.children) :
    r.isDone c = true := by
  obtain ⟨tc, htc, hp⟩ := hf.parent_eq h.task hc
  by_contra hd
  rw [isDone_of_eq_some htc, Bool.not_eq_true] at hd
  obtain ⟨above, chain, alone⟩ := h.chain
  have hlt := hf.parent_lt htc hp
  rcases List.mem_cons.mp (alone c tc htc hd) with rfl | hmem
  · exact Nat.lt_irrefl _ hlt
  · exact Nat.lt_asymm hlt (chain.lt hmem)

end Last

end Registry

end Rehearsal
