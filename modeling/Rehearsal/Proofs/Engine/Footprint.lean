import Rehearsal.Proofs.Task.Forest

/-!
# Footprints

What a registry may become while some tasks are worked on. Of all others only flags and children
change, and not even of those is an end, a cancellation or an abandonment taken back.
-/
namespace Rehearsal

structure Footprint where
  works : Nat → Prop
  drives : Nat → Prop

/-- What is never taken back, and what only driving brings about. -/
structure Task.Onward (driven : Prop) (t t' : Task) : Prop where
  parent : t'.parent = t.parent
  running : t'.running = true → t.running = true ∨ driven
  done : t.done = true → t'.done = true
  cancelled : t.cancelled = true → t'.cancelled = true
  abandoned : t.abandoned = true → t'.abandoned = true

/-- Changed in flags and children only. -/
structure Task.Spared (t t' : Task) : Prop where
  coroutine : t'.coroutine = t.coroutine
  interruption : t'.interruption = t.interruption
  error : t'.error = t.error
  running : t'.running = t.running
  done : t'.done = t.done

namespace Task

variable {driven : Prop}

theorem Onward.of_eq {t t' : Task} (hp : t'.parent = t.parent) (hd : t'.done = t.done)
    (hc : t'.cancelled = t.cancelled) (ha : t'.abandoned = t.abandoned)
    (hr : t'.running = true → t.running = true) : t.Onward driven t' :=
  ⟨hp, fun h => Or.inl (hr h), fun h => hd.trans h, fun h => hc.trans h, fun h => ha.trans h⟩

protected theorem Onward.refl (t : Task) : t.Onward driven t := .of_eq rfl rfl rfl rfl fun h => h

protected theorem Onward.trans {t t' t'' : Task} (h : t.Onward driven t')
    (h' : t'.Onward driven t'') : t.Onward driven t'' :=
  ⟨h'.parent.trans h.parent, fun hr => (h'.running hr).elim h.running Or.inr,
    fun hd => h'.done (h.done hd), fun hc => h'.cancelled (h.cancelled hc),
    fun ha => h'.abandoned (h.abandoned ha)⟩

protected theorem Spared.refl (t : Task) : t.Spared t := ⟨rfl, rfl, rfl, rfl, rfl⟩

protected theorem Spared.trans {t t' t'' : Task} (h : t.Spared t') (h' : t'.Spared t'') :
    t.Spared t'' :=
  ⟨h'.coroutine.trans h.coroutine, h'.interruption.trans h.interruption, h'.error.trans h.error,
    h'.running.trans h.running, h'.done.trans h.done⟩

theorem onward_flag (t : Task) (c l : Bool) : t.Onward driven (t.flag c l) :=
  ⟨rfl, Or.inl, fun h => h, fun h => by simp [flag, h], fun h => by simp [flag, h]⟩

end Task

/-- The registry moves from `r` to `r'` within a footprint. -/
structure Registry.Moves (p : Footprint) (r r' : Registry) : Prop where
  kept : ∀ {i t}, r.get? i = some t →
    ∃ t', r'.get? i = some t' ∧ t.Onward (p.drives i) t' ∧ (¬ p.works i → t.Spared t')

end Rehearsal
