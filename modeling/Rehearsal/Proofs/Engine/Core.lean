import Rehearsal.Proofs.Task.Standing
import Rehearsal.Proofs.Engine.Nesting

/-!
# The state that activities leave alone

`Core` describes a registry under a stack. It names at most one subject, the task that is in the
hands of the scheduler: of it nothing is said but that no frame drives it. Every other task runs
exactly if a frame drives it, stands as `Standing` allows, and will hear of the end of each child.
Those in `begun` have been started before and do not look as if they had not.

A step takes a task into its hands, works on it and puts it back. Each of these moves is a lemma
here, so a step never has to look at the other tasks.
-/
namespace Rehearsal

def Frame.tells (t : Nat) : Frame → List Nat
  | .round finished rest => if t ∈ rest then finished else []
  | _ => []

/-- The ends that task `t` has yet to hear of: those in the buffer, those reaped for the next round,
and those of the current round. -/
def news (r : Registry) (reaped : List Nat) (stack : List Frame) (t : Nat) : List Nat :=
  r.finished ++ reaped ++ stack.flatMap (Frame.tells t)

/-- What a frame relies on. -/
def Frame.Stands (r : Registry) : Frame → Prop
  | .driving t => ∃ u, r.get? t = some u ∧ u.coroutine.isSome = true
  | .member p => ∃ u, r.get? p = some u
  | .composite c => ∀ e ∈ c.made, r.Owned c.task e.2
  | .forked child => ∃ u, r.get? child = some u
  | .batch _ => True
  | .round finished _ => ∀ d ∈ finished, r.isDone d = true
  | .loop root => root = 0

structure Core (begun : Nat → Prop) (r : Registry) (reaped : List Nat) (stack : List Frame)
    (subject : Option Nat) : Prop where
  forest : r.Forest
  frames : ∀ f ∈ stack, f.Stands r
  alone : (runners stack).Nodup
  aside : ∀ i, subject = some i → i ∉ runners stack
  running : ∀ {i t}, r.get? i = some t → subject ≠ some i → (t.running = true ↔ i ∈ runners stack)
  hears : ∀ {i t}, r.get? i = some t → ∀ c ∈ t.children, r.Hears (news r reaped stack i) c
  standing : ∀ {i t}, r.get? i = some t → subject ≠ some i → t.Standing r (news r reaped stack i)
  once : ∀ {i}, begun i → ∃ t, r.get? i = some t ∧ (subject = some i ∨ ¬ t.Fresh)

section News

variable {r r' : Registry} {reaped : List Nat} {stack : List Frame} {f : Frame} {t : Nat}

theorem news_cons (hf : f.tells t = []) : news r reaped (f :: stack) t = news r reaped stack t := by
  simp only [news, List.flatMap_cons, hf, List.nil_append]

theorem mem_news_of_finished {d : Nat} (h : d ∈ r.finished) : d ∈ news r reaped stack t :=
  List.mem_append_left _ (List.mem_append_left _ h)

theorem news_subset (h : ∀ x, x ∈ r.finished → x ∈ r'.finished) :
    ∀ x ∈ news r reaped stack t, x ∈ news r' reaped stack t := by
  intro x hx
  simp only [news, List.mem_append] at hx ⊢
  rcases hx with (hx | hx) | hx
  · exact Or.inl (Or.inl (h x hx))
  · exact Or.inl (Or.inr hx)
  · exact Or.inr hx

end News

namespace Frame.Stands

variable {r r' : Registry} {touched cut : Nat → Prop}

theorem evolve {f : Frame} (h : f.Stands r) (hev : r.Evolves r' touched cut)
    (hrun : ∀ i, f.runner? = some i → ¬ touched i) (hcut : ∀ c, f = .composite c → ¬ cut c.task) :
    f.Stands r' := by
  cases f with
  | driving t =>
    obtain ⟨u, hu, hco⟩ := h
    obtain ⟨u', hu', _⟩ := hev.kept hu
    obtain ⟨u₀, hu₀, hs⟩ := hev.steady (hrun t rfl) hu'
    rw [hu, Option.some.injEq] at hu₀
    subst hu₀
    exact ⟨u', hu', hs.coroutine ▸ hco⟩
  | member p =>
    obtain ⟨u, hu⟩ := h
    obtain ⟨u', hu', _⟩ := hev.kept hu
    exact ⟨u', hu'⟩
  | composite c => exact fun e he => (h e he).evolve hev (hcut c rfl)
  | forked child =>
    obtain ⟨u, hu⟩ := h
    obtain ⟨u', hu', _⟩ := hev.kept hu
    exact ⟨u', hu'⟩
  | batch rest => trivial
  | round finished rest =>
    intro d hd
    obtain ⟨u, hu, hdone⟩ := Registry.isDone_iff.mp (h d hd)
    obtain ⟨u', hu', hk⟩ := hev.kept hu
    exact Registry.isDone_iff.mpr ⟨u', hu', hk.done hdone⟩
  | loop root => exact h

end Frame.Stands

namespace Task.Standing

variable {r : Registry} {news : List Nat} {t : Task}

/-- Of the tasks that run nothing else is known than that they are free. -/
theorem free (h : t.Standing r news) (hr : t.running = true) : t.Free := by
  cases h with
  | ended _ hr' => exact (Bool.false_ne_true (hr'.symm.trans hr)).elim
  | fresh h => exact (Bool.false_ne_true (h.running.symm.trans hr)).elim
  | active free _ => exact free
  | waiting i h => exact (Bool.false_ne_true (h.running.symm.trans hr)).elim
  | holding i h => exact (Bool.false_ne_true (h.running.symm.trans hr)).elim

end Task.Standing

namespace Core

variable {begun : Nat → Prop} {r r' : Registry} {reaped : List Nat} {stack : List Frame}
  {subject subject' : Option Nat} {t : Nat} {u : Task}

/-- Where no task is taken, those run that frames drive. -/
theorem running_iff (h : Core begun r reaped stack none) (hu : r.get? t = some u) :
    u.running = true ↔ t ∈ runners stack :=
  h.running hu (Option.some_ne_none t).symm

/-- Where no task is taken, all of them stand. -/
theorem stands (h : Core begun r reaped stack none) (hu : r.get? t = some u) :
    u.Standing r (news r reaped stack t) :=
  h.standing hu (Option.some_ne_none t).symm

/-- The registry evolves around the tasks that frames drive. -/
theorem evolve {cut : Nat → Prop} (h : Core begun r reaped stack subject)
    (hev : r.Evolves r' (subject' = some ·) cut) (hforest : r'.Forest)
    (hs : ∀ i, subject = some i → subject' = some i)
    (haside : ∀ i, subject' = some i → i ∉ runners stack)
    (hcut : ∀ i, cut i → subject' = some i ∨ i ∈ runners stack)
    (hown : ∀ c, .composite c ∈ stack → ¬ cut c.task)
    (hears : ∀ i t', subject' = some i → r'.get? i = some t' →
      ∀ c ∈ t'.children, r'.Hears (news r' reaped stack i) c) :
    Core begun r' reaped stack subject' where
  forest := hforest
  alone := h.alone
  aside := haside
  frames := by
    intro f hf
    refine (h.frames f hf).evolve hev (fun i hi hsub => ?_) fun c hc => hown c (hc ▸ hf)
    exact haside i hsub (List.mem_filterMap.mpr ⟨f, hf, hi⟩)
  running := by
    intro i t' ht' hi
    obtain ⟨t, ht, hst⟩ := hev.steady hi ht'
    rw [hst.running]
    exact h.running ht fun he => hi (hs i he)
  hears := by
    intro i t' ht' c hc
    by_cases hi : subject' = some i
    · exact hears i t' hi ht' c hc
    · obtain ⟨t, ht, hst⟩ := hev.steady hi ht'
      rcases hst.added c hc with hc | hh
      · exact (h.hears ht c hc).evolve hev (news_subset fun _ => hev.finished)
          fun _ => mem_news_of_finished
      · exact hh.mono fun _ => mem_news_of_finished
  standing := by
    intro i t' ht' hi
    obtain ⟨t, ht, hst⟩ := hev.steady hi ht'
    have hsi : subject ≠ some i := fun he => hi (hs i he)
    refine (h.standing ht hsi).evolve hst hev (fun hc => ?_) (news_subset fun _ => hev.finished)
      fun _ => mem_news_of_finished
    rw [h.forest.id_eq ht] at hc
    rcases hcut i hc with he | hr
    · exact (hi he).elim
    · exact (h.running ht hsi).mpr hr
  once := by
    intro i hi
    obtain ⟨t, ht, hf⟩ := h.once hi
    obtain ⟨t', ht', _⟩ := hev.kept ht
    refine ⟨t', ht', ?_⟩
    by_cases hsi : subject' = some i
    · exact Or.inl hsi
    · obtain ⟨t₀, ht₀, hst⟩ := hev.steady hsi ht'
      rw [ht, Option.some.injEq] at ht₀
      subst ht₀
      exact Or.inr fun hfr => hf.elim (fun he => hsi (hs i he)) fun hn => hn (hst.fresh hfr)

/-- Flags are raised; only children of the subject, or of a task that runs, are let go. -/
theorem flagged {gone : Nat → Prop} (h : Core begun r reaped stack subject) (cut : Nat → Prop)
    (hf : Registry.Flagged r r' gone)
    (hg : ∀ i t, gone i → r.get? i = some t → ∃ p, t.parent = some p ∧ cut p)
    (hcut : ∀ i, cut i → subject = some i ∨ i ∈ runners stack)
    (hown : ∀ c, .composite c ∈ stack → ¬ cut c.task) : Core begun r' reaped stack subject := by
  have hev : ∀ touched, r.Evolves r' touched cut := fun _ => .flagged hf hg
  refine h.evolve (hev _) (h.forest.flagged hf) (fun _ => id) h.aside hcut hown ?_
  intro i t' _ ht' c hc
  obtain ⟨t, _, _, ht, rfl, _⟩ := hf.of_eq_some ht'
  exact (h.hears ht c hc).evolve (hev fun _ => False)
    (news_subset fun _ => (hev fun _ => False).finished)
    fun _ => mem_news_of_finished

/-- Tasks are cancelled, and none is let go. -/
theorem cancelled (h : Core begun r reaped stack subject)
    (hf : Registry.Flagged r r' fun _ => False) : Core begun r' reaped stack subject :=
  h.flagged (fun _ => False) hf (fun _ _ => False.elim) (fun _ => False.elim) fun _ _ => id

/-! ### Taking a task and putting it back -/

/-- A task that no frame drives is taken. -/
theorem take (h : Core begun r reaped stack none) (ht : t ∉ runners stack) :
    Core begun r reaped stack (some t) where
  forest := h.forest
  frames := h.frames
  alone := h.alone
  aside := by
    rintro i ⟨⟩
    exact ht
  running := fun hi _ => h.running_iff hi
  hears := h.hears
  standing := fun hi _ => h.stands hi
  once := by
    intro i hi
    obtain ⟨v, hv, hf⟩ := h.once hi
    exact ⟨v, hv, Or.inr (hf.resolve_left nofun)⟩

/-- The task that the top frame drives is taken, and the frame with it. -/
theorem lift {f : Frame} (h : Core begun r reaped (f :: stack) none) (hf : f.runner? = some t) :
    Core begun r reaped stack (some t) := by
  have hr : runners (f :: stack) = t :: runners stack := by
    simp only [runners, List.filterMap_cons, hf]
  have hn : ∀ i, news r reaped (f :: stack) i = news r reaped stack i := by
    intro i
    refine news_cons ?_
    cases f <;> first | rfl | cases hf
  have hnodup := h.alone
  rw [hr] at hnodup
  constructor
  case forest => exact h.forest
  case frames => exact fun g hg => h.frames g (List.mem_cons_of_mem _ hg)
  case alone => exact (List.nodup_cons.mp hnodup).2
  case aside =>
    rintro i ⟨⟩
    exact (List.nodup_cons.mp hnodup).1
  case running =>
    intro i u hu hi
    have hit : i ≠ t := fun he => hi (he ▸ rfl)
    rw [h.running_iff hu, hr, List.mem_cons, or_iff_right hit]
  case hears => exact fun hu c hc => hn _ ▸ h.hears hu c hc
  case standing => exact fun hu _ => hn _ ▸ h.stands hu
  case once =>
    intro i hi
    obtain ⟨v, hv, hf⟩ := h.once hi
    exact ⟨v, hv, Or.inr (hf.resolve_left nofun)⟩

/-- Any tasks that do not look as if they had not been started may be counted as begun. -/
theorem recount {begun' : Nat → Prop} (h : Core begun r reaped stack subject)
    (hb : ∀ i, begun' i → ∃ t, r.get? i = some t ∧ (subject = some i ∨ ¬ t.Fresh)) :
    Core begun' r reaped stack subject :=
  { h with once := hb _ }

/-- What looks as if it had not been started has not been started. -/
theorem not_begun (h : Core begun r reaped stack none) (hu : r.get? t = some u) (hf : u.Fresh) :
    ¬ begun t := by
  intro hb
  obtain ⟨v, hv, hv'⟩ := h.once hb
  rw [hu, Option.some.injEq] at hv
  exact hv'.resolve_left nofun (hv ▸ hf)

/-- Whoever is driven is there. -/
theorem exists_of_mem_runners (h : Core begun r reaped stack subject) (ht : t ∈ runners stack) :
    ∃ u, r.get? t = some u := by
  obtain ⟨f, hf, hft⟩ := List.mem_filterMap.mp ht
  have hfr := h.frames f hf
  cases f with
  | driving i =>
    cases hft
    obtain ⟨u, hu, _⟩ := hfr
    exact ⟨u, hu⟩
  | member p =>
    cases hft
    exact hfr
  | _ => cases hft

/-- The task that the top frame drives is there and free. -/
theorem exists_runner {f : Frame} (h : Core begun r reaped (f :: stack) none)
    (hf : f.runner? = some t) :
    ∃ u, r.get? t = some u ∧ u.Free ∧ u.running = true := by
  have hmem : t ∈ runners (f :: stack) := List.mem_filterMap.mpr ⟨f, List.mem_cons_self .., hf⟩
  obtain ⟨u, hu⟩ := h.exists_of_mem_runners hmem
  have hrun := (h.running_iff hu).mpr hmem
  exact ⟨u, hu, (h.stands hu).free hrun, hrun⟩

/-- Work on the subject that leaves its children, but for some it lets go of. -/
theorem work {cut : Nat → Prop} (h : Core begun r reaped stack (some t)) (hu : r.get? t = some u)
    (hev : r.Evolves r' (· = t) cut) (hforest : r'.Forest) {u' : Task} (hu' : r'.get? t = some u')
    (hc : ∀ c ∈ u'.children, c ∈ u.children) (hcut : ∀ i, cut i → i = t)
    (hown : ∀ c, .composite c ∈ stack → c.task ∈ runners stack) :
    Core begun r' reaped stack (some t) := by
  refine h.evolve (hev.mono (fun i hi => congrArg some hi.symm) fun _ => id) hforest (fun _ => id)
    h.aside (fun i hi => Or.inl (congrArg some (hcut i hi).symm)) ?_ ?_
  · intro c hmem hcc
    exact h.aside t rfl (hcut _ hcc ▸ hown c hmem)
  · rintro i v ⟨⟩ hv c hmem
    rw [hu', Option.some.injEq] at hv
    subst hv
    exact (h.hears hu c (hc c hmem)).evolve hev (news_subset fun _ => hev.finished)
      fun _ => mem_news_of_finished

/-- The subject is changed, and nothing else. -/
theorem modify (h : Core begun r reaped stack (some t)) (hu : r.get? t = some u) (f : Task → Task)
    (hr : u.Retied r (f u)) (ha : (f u).abandoned = u.abandoned) :
    Core begun (r.modify t f) reaped stack (some t) := by
  have hev : r.Evolves (r.modify t f) (· = t) (fun _ => False) :=
    .modify hu hr.id hr.parent hr.done ha
  refine h.evolve (hev.mono (fun i hi => congrArg some hi.symm) fun _ => id)
    (h.forest.modify hu hr) (fun _ => id) h.aside (fun _ => False.elim) (fun _ _ => id) ?_
  rintro i v ⟨⟩ hv c hmem
  rw [Registry.get?_modify_of_eq_some f hu, Option.some.injEq] at hv
  subst hv
  exact (h.hears hu c (hr.children.subset hmem)).evolve hev (fun _ => id)
    fun _ => mem_news_of_finished

/-- The subject is put back once it stands. -/
theorem put (h : Core begun r reaped stack (some t)) (hu : r.get? t = some u)
    (hr : u.running = false) (hs : u.Standing r (news r reaped stack t))
    (hf : begun t → ¬ u.Fresh) : Core begun r reaped stack none where
  forest := h.forest
  frames := h.frames
  alone := h.alone
  aside := nofun
  running := by
    intro i v hv _
    by_cases hi : i = t
    · subst hi
      rw [hu, Option.some.injEq] at hv
      subst hv
      simp only [hr, Bool.false_eq_true, false_iff]
      exact h.aside i rfl
    · exact h.running hv fun he => hi (Option.some.inj he).symm
  hears := h.hears
  standing := by
    intro i v hv _
    by_cases hi : i = t
    · subst hi
      rw [hu, Option.some.injEq] at hv
      exact hv ▸ hs
    · exact h.standing hv fun he => hi (Option.some.inj he).symm
  once := by
    intro i hi
    obtain ⟨v, hv, hv'⟩ := h.once hi
    refine ⟨v, hv, Or.inr ?_⟩
    rcases hv' with he | hn
    · rw [Option.some.injEq] at he
      subst he
      rw [hu, Option.some.injEq] at hv
      exact hv ▸ hf hi
    · exact hn

/-- The subject is handed to a frame that drives it. -/
theorem push {f : Frame} (h : Core begun r reaped stack (some t)) (hu : r.get? t = some u)
    (hf : f.runner? = some t) (hfr : f.Stands r) (free : u.Free) (hr : u.running = true) :
    Core begun r reaped (f :: stack) none := by
  have hrun : runners (f :: stack) = t :: runners stack := by
    simp only [runners, List.filterMap_cons, hf]
  have hn : ∀ i, news r reaped (f :: stack) i = news r reaped stack i := by
    intro i
    refine news_cons ?_
    cases f <;> first | rfl | cases hf
  constructor
  case forest => exact h.forest
  case frames =>
    intro g hg
    rcases List.mem_cons.mp hg with rfl | hg
    · exact hfr
    · exact h.frames g hg
  case alone => exact hrun ▸ List.nodup_cons.mpr ⟨h.aside t rfl, h.alone⟩
  case aside => exact nofun
  case running =>
    intro i v hv _
    rw [hrun, List.mem_cons]
    by_cases hi : i = t
    · subst hi
      rw [hu, Option.some.injEq] at hv
      subst hv
      simp only [hr, true_or]
    · rw [or_iff_right hi]
      exact h.running hv fun he => hi (Option.some.inj he).symm
  case hears => exact fun hv c hc => hn _ ▸ h.hears hv c hc
  case standing =>
    intro i v hv _
    rw [hn]
    by_cases hi : i = t
    · subst hi
      rw [hu, Option.some.injEq] at hv
      exact hv ▸ .active free hr
    · exact h.standing hv fun he => hi (Option.some.inj he).symm
  case once =>
    intro i hi
    obtain ⟨v, hv, hv'⟩ := h.once hi
    refine ⟨v, hv, Or.inr ?_⟩
    rcases hv' with he | hn
    · rw [Option.some.injEq] at he
      subst he
      rw [hu, Option.some.injEq] at hv
      subst hv
      exact fun hfr => Bool.false_ne_true (hfr.running.symm.trans hr)
    · exact hn

/-- A frame that drives nothing and tells nothing comes on top. -/
theorem cons {f : Frame} (h : Core begun r reaped stack subject) (hf : f.runner? = none)
    (ht : ∀ i, f.tells i = []) (hfr : f.Stands r) : Core begun r reaped (f :: stack) subject := by
  have hrun : runners (f :: stack) = runners stack := by
    simp only [runners, List.filterMap_cons, hf]
  constructor
  case forest => exact h.forest
  case frames =>
    intro g hg
    rcases List.mem_cons.mp hg with rfl | hg
    · exact hfr
    · exact h.frames g hg
  case alone => exact hrun ▸ h.alone
  case aside => exact hrun ▸ h.aside
  case running => exact fun hv hi => hrun ▸ h.running hv hi
  case hears => exact fun hv c hc => (news_cons (ht _)).symm ▸ h.hears hv c hc
  case standing => exact fun hv hi => (news_cons (ht _)).symm ▸ h.standing hv hi
  case once => exact h.once

/-- A frame that drives nothing and tells nothing any more goes. -/
theorem tail {f : Frame} (h : Core begun r reaped (f :: stack) subject) (hf : f.runner? = none)
    (ht : ∀ i, f.tells i = []) : Core begun r reaped stack subject := by
  have hrun : runners (f :: stack) = runners stack := by
    simp only [runners, List.filterMap_cons, hf]
  constructor
  case forest => exact h.forest
  case frames => exact fun g hg => h.frames g (List.mem_cons_of_mem _ hg)
  case alone => exact hrun ▸ h.alone
  case aside => exact hrun ▸ h.aside
  case running => exact fun hv hi => hrun ▸ h.running hv hi
  case hears => exact fun hv c hc => news_cons (ht _) ▸ h.hears hv c hc
  case standing => exact fun hv hi => news_cons (ht _) ▸ h.standing hv hi
  case once => exact h.once

end Core

end Rehearsal
