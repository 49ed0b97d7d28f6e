import Rehearsal.Proofs.Engine.Stems
import Rehearsal.Proofs.Engine.Termination

/-!
# What waits to be raised

A frame one of whose wards has failed is bound to raise the first failure among its wards, and it
does so, unless the run is given up: what goes on above it comes to an end, and nothing that happens
meanwhile changes which failure is the first. What frames further down would raise does not change
either.
-/
namespace Rehearsal

variable {σ : Type} {begun : Nat → Prop}

namespace Machine

/-- The frame tends `a`, and will raise `e` once it goes on. -/
structure Dooms (m : Machine σ) (a : Nat) (e : Exn) (f : Frame) : Prop where
  ward : a ∈ f.wards
  first : m.firstError? f.wards = some e
  attached : ∀ child, f = .forked child →
    ∃ u, m.registry.get? child = some u ∧ u.detached = false

theorem Dooms.grow {m : Machine σ} {a b : Nat} {e : Exn} {k k' : Composite}
    (h : m.Dooms a e (.composite k)) (members : k'.members = k.members ++ [b]) :
    m.Dooms a e (.composite k') where
  ward := by
    show a ∈ k'.members
    rw [members]
    exact List.mem_append_left _ h.ward
  first := by
    have hfirst : m.firstError? k.members = some e := h.first
    show m.firstError? k'.members = some e
    unfold firstError? at hfirst ⊢
    rw [members, List.findSome?_append, hfirst]
    rfl
  attached := nofun

theorem firstError?_congr {m m' : Machine σ} {ids : List Nat}
    (h : ∀ x ∈ ids, (m'.get? x).bind (·.error) = (m.get? x).bind (·.error)) :
    m'.firstError? ids = m.firstError? ids := by
  unfold firstError?
  induction ids with
  | nil => rfl
  | cons x ids ih =>
    rw [List.findSome?_cons, List.findSome?_cons, h x (List.mem_cons_self ..),
      ih fun y hy => h y (List.mem_cons_of_mem _ hy)]

end Machine

namespace Config

variable {w : World σ} {o : RunOptions} {c : Config σ}

/-- A ward that fails is the last one of the top frame. -/
theorem Underway.top_of_fail (hc : c.Underway) {q : Nat} {e : Exn} (h : c.control = .fail q e)
    {f : Frame} (hf : f ∈ c.stack) (hq : q ∈ f.wards) :
    f.wards.getLast? = some q ∧ ∃ below, c.stack = f :: below ∧ f ∉ below := by
  have hsubject : c.control.subject? = some q := by rw [h]; rfl
  obtain ⟨below, ht⟩ : ∃ below, Tended q below c.stack := Tops.of_mem hf hq
  obtain ⟨g, hstack, hg⟩ := hc.top_of_subject hsubject ht
  have hl := hc.lineal.stack
  have hlast := hc.lineal.subject q
  rw [hstack] at hf hl hlast
  -- whatever stands further down holds older tasks only
  have hyoung : ∀ g' ∈ below, q ∉ g'.wards := fun g' hg' hmem =>
    Nat.lt_irrefl q (hl.fits.young q hg g' hg' q (List.mem_append_left _ hmem))
  obtain rfl : f = g := (List.mem_cons.mp hf).resolve_right fun hmem => hyoung f hmem hq
  refine ⟨?_, below, hstack, fun hmem => hyoung f hmem hq⟩
  obtain ⟨x, hx⟩ : ∃ x, f.wards.getLast? = some x :=
    ⟨_, List.getLast?_eq_some_getLast (List.ne_nil_of_mem hg)⟩
  rw [hx, hlast x hsubject hx]

/-- The error of a task changes only when it fails. -/
theorem error_step (w : World σ) (o : RunOptions) {i : Nat} (h : ∀ e, c.control ≠ .fail i e) :
    ((c.step w o).machine.get? i).bind (·.error) = (c.machine.get? i).bind (·.error) := by
  have hkept : ∀ e, (c.machine.get? i).bind (·.error) = some e →
      ((c.step w o).machine.get? i).bind (·.error) = some e := by
    intro e he
    obtain ⟨u, hu, he⟩ := Option.bind_eq_some_iff.mp he
    obtain ⟨u', hu', ha⟩ := (amends_step w o c).kept hu
    exact Option.bind_eq_some_iff.mpr ⟨u', hu', ha.failed e he⟩
  have hback : ∀ e, ((c.step w o).machine.get? i).bind (·.error) = some e →
      (c.machine.get? i).bind (·.error) = some e := by
    intro e he
    obtain ⟨u', hu', he⟩ := Option.bind_eq_some_iff.mp he
    rcases (amends_step w o c).errors hu' he with ⟨u, hu, he⟩ | hf
    · exact Option.bind_eq_some_iff.mpr ⟨u, hu, he⟩
    · exact (h e hf).elim
  exact Option.ext fun e => ⟨hback e, hkept e⟩

/-- Which failure is the first among the wards of a frame does not change once there is one. -/
theorem first_step (w : World σ) (o : RunOptions) (hc : c.Underway) {f : Frame} (hf : f ∈ c.stack)
    {e : Exn} (h : c.machine.firstError? f.wards = some e) :
    (c.step w o).machine.firstError? f.wards = some e := by
  obtain ⟨begun, hs⟩ := hc.sound
  obtain ⟨before, a, after, hwards, ha, hbefore⟩ := List.findSome?_eq_some_iff.mp h
  have hmem : ∀ x ∈ before, x ∈ f.wards := fun x hx => by
    rw [hwards]
    exact List.mem_append_left _ hx
  refine List.findSome?_eq_some_iff.mpr ⟨before, a, after, hwards, ?_, fun x hx => ?_⟩
  · obtain ⟨u, hu, he⟩ := Option.bind_eq_some_iff.mp ha
    obtain ⟨u', hu', hk⟩ := (amends_step w o c).kept hu
    exact Option.bind_eq_some_iff.mpr ⟨u', hu', hk.failed e he⟩
  · rw [error_step w o fun e' hfail => ?_]
    · exact hbefore x hx
    obtain ⟨hlast, below, hstack, _⟩ := hc.top_of_fail hfail hf (hmem x hx)
    have hl := hc.lineal.stack
    rw [hstack] at hl
    have hsorted := hl.fits.sorted
    rw [hwards] at hsorted hlast
    rw [List.getLast?_append_cons] at hlast
    have hxa := (List.pairwise_append.mp hsorted).2.2 x hx x (List.mem_of_getLast? hlast)
    exact Nat.lt_irrefl x hxa

/-- Further down nothing changes. -/
theorem first_below_step (w : World σ) (o : RunOptions) (hc : c.Underway) {g f : Frame}
    {below : List Frame} (hstack : c.stack = g :: below) (hf : f ∈ below) :
    (c.step w o).machine.firstError? f.wards = c.machine.firstError? f.wards := by
  refine Machine.firstError?_congr fun x hx => error_step w o fun e hfail => ?_
  obtain ⟨_, below', hstack', hn⟩ := hc.top_of_fail hfail (hstack ▸ List.mem_cons_of_mem _ hf) hx
  rw [hstack] at hstack'
  cases hstack'
  exact hn hf

/-- Where a ward fails, it is the first one to do so, or another one was. -/
theorem first_of_fail (w : World σ) (o : RunOptions) (hc : c.Underway) {q : Nat} {e : Exn}
    (h : c.control = .fail q e) {f : Frame} (hf : f ∈ c.stack) (hq : q ∈ f.wards) :
    (c.step w o).machine.firstError? f.wards = some ((c.machine.firstError? f.wards).getD e) := by
  obtain ⟨begun, hs⟩ := hc.sound
  cases hfirst : c.machine.firstError? f.wards with
  | some e₀ => exact first_step w o hc hf hfirst
  | none =>
    obtain ⟨u, hu, he⟩ := failed_after w o hs h
    have hsome : ((c.step w o).machine.firstError? f.wards).isSome = true := by
      rw [Machine.firstError?, List.findSome?_isSome_iff]
      exact ⟨q, hq, by rw [show (c.step w o).machine.get? q = some u from hu]; simp [he]⟩
    obtain ⟨e', he'⟩ := Option.isSome_iff_exists.mp hsome
    obtain ⟨x, hx, hxe⟩ := List.exists_of_findSome?_eq_some he'
    have hxq : x = q := by
      by_contra hne
      rw [error_step w o fun e'' hfail => ?_, List.findSome?_eq_none_iff.mp hfirst x hx] at hxe
      · cases hxe
      · rw [h] at hfail
        cases hfail
        exact hne rfl
    rw [hxq, show (c.step w o).machine.get? q = some u from hu, Option.bind_some, he] at hxe
    rw [he', ← hxe]
    rfl

/-! ### Until it is raised -/

variable {a : Nat} {e : Exn} {below : List Frame}

/-- A frame that is bound to raise an exception stays so, or raises it. -/
theorem doomed_step (w : World σ) (o : RunOptions) (hc : c.Underway)
    (h : Tops (c.machine.Dooms a e) below c.stack) :
    Tops ((c.step w o).machine.Dooms a e) below (c.step w o).stack ∨
      (c.step w o = ⟨c.machine, below, .raised e⟩ ∧ c.control = .done ∧
        ∃ f, c.stack = f :: below ∧ a ∈ f.wards) := by
  obtain ⟨begun, hs⟩ := hc.sound
  have hturn : Turn o c (c.step w o) := turn_step w o hs
  have hdoom : Tops ((c.step w o).machine.Dooms a e) below c.stack := by
    refine h.imp fun f hf hdoom =>
      ⟨hdoom.ward, first_step w o hc hf hdoom.first, fun child hchild => ?_⟩
    obtain ⟨u, hu, hd⟩ := hdoom.attached child hchild
    obtain ⟨u', hu', hk⟩ := (amends_step w o c).kept hu
    exact ⟨u', hu', hk.detached.trans hd⟩
  rcases hturn.tops_after hc.live (fun f hf => List.ne_nil_of_mem hf.ward)
    (fun k k' b hk hm => hk.grow hm) hdoom with hstill | ⟨f, hf, hres⟩
  · exact Or.inl hstill
  · refine Or.inr ?_
    have hmem : f ∈ c.stack := by
      rw [hres.stack]
      exact List.mem_cons_self ..
    rcases hres.outcome with ⟨e', hfirst, hraise⟩ | ⟨_, hhale⟩
    · have he : e' = e := by
        have hlater := first_step w o hc hmem hfirst
        rw [hf.first, Option.some.injEq] at hlater
        exact hlater.symm
      subst he
      obtain ⟨x, _, u, hu, hux⟩ := Machine.firstError?_eq_some hfirst
      rw [Failure.control_of_ordinary (hc.ordinary.errors x u e' hu hux)] at hraise
      exact ⟨hraise, hres.control, f, hres.stack, hf.ward⟩
    · -- nothing has failed on the way, so there was nothing to raise
      exfalso
      obtain ⟨x, hx, u', hu', he⟩ := Machine.firstError?_eq_some hf.first
      have herror := error_step (c := c) w o (i := x) fun e hfail => by
        rw [hres.control] at hfail
        cases hfail
      rw [hu', Option.bind_some, he] at herror
      obtain ⟨u, hu, hue⟩ := Option.bind_eq_some_iff.mp herror.symm
      rcases hhale x hx u hu with hnone | ⟨hfork, hdetached⟩
      · rw [hnone] at hue
        cases hue
      · obtain ⟨v, hv, hattached⟩ := hf.attached x hfork
        obtain ⟨v', hv', hk⟩ := (amends_step w o c).kept hu
        rw [hv, Option.some.injEq] at hv'
        have hsame := hk.detached
        rw [← hv', hattached, hdetached] at hsame
        cases hsame

/-- **What is bound to be raised is raised**, unless the run is given up or never comes to that. -/
theorem raised_of_doomed (w : World σ) (o : RunOptions) (hc : c.Underway)
    (h : Tops (c.machine.Dooms a e) below c.stack) :
    (∀ j, (run w o j c).Underway ∧
        Tops ((run w o j c).machine.Dooms a e) below (run w o j c).stack) ∨
    ∃ k, (∀ j < k, (run w o j c).Underway ∧
        Tops ((run w o j c).machine.Dooms a e) below (run w o j c).stack) ∧
      ((∃ f, (run w o k c).control = .abort f) ∨
        ∃ m, k = m + 1 ∧ run w o k c = ⟨(run w o m c).machine, below, .raised e⟩ ∧
          (run w o m c).control = .done ∧ ∃ f, (run w o m c).stack = f :: below ∧ a ∈ f.wards) := by
  refine or_iff_not_imp_left.mpr fun hever => ?_
  obtain ⟨n, hn⟩ := not_forall.mp hever
  clear hever
  induction n generalizing c with
  | zero => exact (hn ⟨hc, h⟩).elim
  | succ n ih =>
    have hfin : c.isFinal = false := by
      obtain ⟨g, rest, hstack, _⟩ := h.exists_cons
      rw [isFinal, hstack]
      rfl
    have hshift : ∀ j, run w o (j + 1) c = run w o j (c.step w o) := fun j => run_one w o hfin j
    have hone : run w o 1 c = c.step w o := hshift 0
    rw [hshift] at hn
    by_cases live : ∀ f, (c.step w o).control ≠ .abort f
    case neg =>
      simp only [not_forall, not_not] at live
      refine ⟨1, fun j hj => ?_, Or.inl (hone ▸ live)⟩
      obtain rfl := Nat.lt_one_iff.mp hj
      exact ⟨hc, h⟩
    case pos =>
      rcases doomed_step w o hc h with hstill | hraise
      · obtain ⟨k, hk, hend⟩ := ih (hc.step w o live) hstill hn
        refine ⟨k + 1, fun j hj => ?_, ?_⟩
        · cases j with
          | zero => exact ⟨hc, h⟩
          | succ j =>
            rw [hshift]
            exact hk j (Nat.lt_of_succ_lt_succ hj)
        · refine hend.imp (fun hab => by rw [hshift]; exact hab) ?_
          rintro ⟨m, rfl, hr, hdone, hf⟩
          refine ⟨m + 1, rfl, ?_, ?_⟩
          · rw [hshift, hshift, hr]
          · rw [hshift]
            exact ⟨hdone, hf⟩
      · refine ⟨1, fun j hj => ?_, Or.inr ⟨0, rfl, hone ▸ hraise⟩⟩
        obtain rfl := Nat.lt_one_iff.mp hj
        exact ⟨hc, h⟩

/-- Meanwhile nothing changes in what frames further down would raise. -/
theorem first_below_run (w : World σ) (o : RunOptions) {P : Nat → Frame → Prop} {k : Nat}
    (h : ∀ j < k, (run w o j c).Underway ∧ Tops (P j) below (run w o j c).stack) {f : Frame}
    (hf : f ∈ below) :
    (run w o k c).machine.firstError? f.wards = c.machine.firstError? f.wards := by
  induction k with
  | zero => rfl
  | succ k ih =>
    obtain ⟨hu, ht⟩ := h k (Nat.lt_succ_self k)
    obtain ⟨g, rest, hstack, hsub⟩ := ht.exists_cons
    rw [run_succ_of_not_isFinal (by rw [isFinal, hstack]; rfl),
      first_below_step w o hu hstack (hsub hf), ih fun j hj => h j (Nat.lt_succ_of_lt hj)]

end Config

/-! ### Down the stack -/

/-- What becomes of `e`, raised on top of the stack, by the time it reaches task `p`: a frame on the
way raises the first failure among its wards, if there is one already. -/
def Machine.relay (m : Machine σ) (p : Nat) : List Frame → Exn → Exn
  | [], e => e
  | f :: below, e =>
    if f.runner? = some p then e else m.relay p below ((m.firstError? f.wards).getD e)

theorem Machine.relay_congr {m m' : Machine σ} {p : Nat} {below : List Frame}
    (h : ∀ f ∈ below, m'.firstError? f.wards = m.firstError? f.wards) (e : Exn) :
    m'.relay p below e = m.relay p below e := by
  induction below generalizing e with
  | nil => rfl
  | cons f below ih =>
    rw [relay, relay, h f (List.mem_cons_self ..), ih fun g hg => h g (List.mem_cons_of_mem _ hg)]

/-- Where no ward on the stack has failed, exceptions are passed on as they are. -/
theorem Machine.relay_of_hale {m : Machine σ} {p : Nat} {below : List Frame}
    (h : ∀ f ∈ below, m.firstError? f.wards = none) (e : Exn) : m.relay p below e = e := by
  induction below with
  | nil => rfl
  | cons f below ih =>
    rw [relay, h f (List.mem_cons_self ..), Option.getD_none,
      ih fun g hg => h g (List.mem_cons_of_mem _ hg), ite_self]

/-- An exception raised above these frames comes to `p`, by way of placeholders. -/
inductive Leads (p : Nat) : List Frame → Prop
  | here {f : Frame} {below : List Frame} (runner : f.runner? = some p) : Leads p (f :: below)
  | through {q : Nat} {k : Composite} {below : List Frame} (h : Leads p below) :
      Leads p (.member q :: .composite k :: below)

theorem Leads.mem_runners {p : Nat} {below : List Frame} (h : Leads p below) :
    p ∈ runners below := by
  induction h with
  | here runner => exact List.mem_filterMap.mpr ⟨_, List.mem_cons_self .., runner⟩
  | through _ ih => exact List.mem_cons_of_mem _ ih

/-- Exceptions raised for placeholders come to the nearest task that is being driven. -/
theorem Nested.leads_owner {who : Option Nat} {stack : List Frame}
    (nested : Nested who stack) {p : Nat}
    (hp : owner? stack = some p) :
    (∀ y, who = some y → Leads p stack) ∧
    ∀ k below, stack = .composite k :: below → Leads p below := by
  induction nested with
  | batch _ _ => cases hp
  | round _ _ _ => cases hp
  | forked _ _ _ => exact ⟨nofun, nofun⟩
  | composite k _ ih =>
    refine ⟨nofun, ?_⟩
    rintro _ _ ⟨⟩
    exact (ih hp).1 _ rfl
  | driving t _ _ =>
    cases hp
    exact ⟨fun _ _ => .here rfl, nofun⟩
  | member q _ _ ih => exact ⟨fun _ _ => .through ((ih hp).2 _ _ rfl), nofun⟩

end Rehearsal
