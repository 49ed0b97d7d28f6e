import Rehearsal.Proofs.Engine.Settling
import Rehearsal.Proofs.Engine.Resuming

/-!
# Rounds of bubbling

A reaped buffer is told to every pending task, one turn each. After its turn a task has lost the
children that are over; it stands blocked behind what the round did not tell of, or is selected.
When nothing was reaped, nothing that is over is left for anybody to hear of.
-/
namespace Rehearsal

variable {σ : Type} {begun : Nat → Prop} {m : Machine σ} {stack : List Frame} {t root : Nat}
  {u : Task} {ids rest : List Nat}

section News

variable {r : Registry} {reaped : List Nat}

/-- The turn of a task takes from the news of the round no more than what the round told. -/
theorem mem_news_turn {i x : Nat} (hx : x ∈ news r reaped (.round ids (t :: rest) :: stack) i)
    (h : i ≠ t ∨ x ∉ ids) : x ∈ news r reaped (.round ids rest :: stack) i := by
  simp only [news, List.mem_append, List.flatMap_cons, Frame.tells] at hx ⊢
  rcases hx with hx | hx | hx
  · exact Or.inl hx
  · right
    left
    split at hx
    · rename_i hi
      rcases h with hne | hn
      · rw [if_pos ((List.mem_cons.mp hi).resolve_left hne)]
        exact hx
      · exact (hn hx).elim
    · cases hx
  · exact Or.inr (Or.inr hx)

end News

namespace Core

variable {r r' : Registry} {reaped reaped' : List Nat} {stack' : List Frame}

/-- The news of unfinished tasks reach them another way. -/
theorem retell (h : Core begun r reaped stack none) (hget : ∀ i, r'.get? i = r.get? i)
    (hforest : r'.Forest) (hrun : runners stack' = runners stack)
    (hframes : ∀ f ∈ stack', f.Stands r')
    (hnews : ∀ i u, r.get? i = some u → u.done = false →
      ∀ x ∈ news r reaped stack i, x ∈ news r' reaped' stack' i) :
    Core begun r' reaped' stack' none where
  forest := hforest
  frames := hframes
  alone := hrun ▸ h.alone
  aside := nofun
  running := by
    intro i u hu _
    rw [hget] at hu
    rw [hrun]
    exact h.running_iff hu
  hears := by
    intro i u hu c hc
    rw [hget] at hu
    cases hd : u.done with
    | true =>
      rw [(h.forest.ended hu hd).1] at hc
      cases hc
    | false => exact (h.hears hu c hc).congr hget (hnews i u hu hd c)
  standing := by
    intro i u hu _
    rw [hget] at hu
    cases hd : u.done with
    | true =>
      cases h.stands hu with
      | ended hd hr => exact .ended hd hr
      | fresh hs => exact (Bool.false_ne_true (hs.done.symm.trans hd)).elim
      | active hs _ => exact (Bool.false_ne_true (hs.done.symm.trans hd)).elim
      | waiting i hs => exact (Bool.false_ne_true (hs.done.symm.trans hd)).elim
      | holding i hs => exact (Bool.false_ne_true (hs.done.symm.trans hd)).elim
    | false => exact (h.stands hu).congr hget (hnews i u hu hd)
  once := by
    intro i hi
    obtain ⟨u, hu, hf⟩ := h.once hi
    exact ⟨u, (hget i).trans hu, hf⟩

/-- The buffer is emptied once the frame on the loop has nothing more to tell. -/
theorem reap {f : Frame} (h : Core begun r [] [f, .loop root] none) (hf : f.runner? = none)
    (ht : ∀ i, f.tells i = []) : Core begun r.reap.1 r.finished [.loop root] none := by
  have h' := h.tail hf ht
  refine h'.retell (fun _ => rfl) h.forest.reap rfl h'.frames fun i u _ _ x hx => ?_
  simpa [news, Registry.reap] using hx

/-- What was reaped is told in a round to every pending task. -/
theorem told (h : Core begun r ids [.loop root] none) (ended : ∀ d ∈ ids, r.isDone d = true) :
    Core begun r [] [.round ids r.pending, .loop root] none := by
  refine h.retell (fun _ => rfl) h.forest rfl ?_ ?_
  · intro f hf
    rcases List.mem_cons.mp hf with rfl | hf
    · exact ended
    · exact h.frames f hf
  · intro i u hu hd x hx
    have hi : i ∈ r.pending := h.forest.mem_pending.mpr ⟨u, hu, hd⟩
    simpa [news, Frame.tells, hi] using hx

/-- The turn of a task that is gone or over passes. -/
theorem pass (h : Core begun r [] (.round ids (t :: rest) :: stack) none)
    (ht : ∀ u, r.get? t = some u → u.done = true) :
    Core begun r [] (.round ids rest :: stack) none := by
  refine h.retell (fun _ => rfl) h.forest rfl ?_ ?_
  · intro f hf
    rcases List.mem_cons.mp hf with rfl | hf
    · exact h.frames (.round ids (t :: rest)) (List.mem_cons_self ..)
    · exact h.frames f (List.mem_cons_of_mem _ hf)
  · intro i u hu hd x hx
    refine mem_news_turn hx (Or.inl ?_)
    rintro rfl
    exact Bool.false_ne_true (hd.symm.trans (ht u hu))

/-- The turn of the subject is over, and it has lost every child that the round told of. -/
theorem turn (h : Core begun r [] (.round ids (t :: rest) :: stack) (some t))
    (hu : r.get? t = some u) (hc : ∀ c ∈ u.children, c ∉ ids) :
    Core begun r [] (.round ids rest :: stack) (some t) where
  forest := h.forest
  frames := by
    intro f hf
    rcases List.mem_cons.mp hf with rfl | hf
    · exact h.frames (.round ids (t :: rest)) (List.mem_cons_self ..)
    · exact h.frames f (List.mem_cons_of_mem _ hf)
  alone := h.alone
  aside := h.aside
  running := h.running
  hears := by
    intro i v hv c hmem
    refine (h.hears hv c hmem).congr (fun _ => rfl) fun hx => mem_news_turn hx ?_
    by_cases hi : i = t
    · subst hi
      rw [hu, Option.some.injEq] at hv
      exact Or.inr (hc c (hv ▸ hmem))
    · exact Or.inl hi
  standing := by
    intro i v hv hi
    have hne : i ≠ t := fun he => hi (he ▸ rfl)
    exact (h.standing hv hi).congr (fun _ => rfl) fun x hx => mem_news_turn hx (Or.inl hne)
  once := h.once

end Core

namespace Core

variable {r : Registry}

/-- A task has its turn: it is taken, without the children that the round tells of. -/
theorem visit (h : Core begun r [] [.round ids (t :: rest), .loop root] none)
    (hu : r.get? t = some u) (hd : u.done = false) :
    Core begun (r.modify t (·.removeChildren ids)) [] [.round ids rest, .loop root] (some t) := by
  have hover := h.frames (.round ids (t :: rest)) (List.mem_cons_self ..)
  have hre : u.Retied r (u.removeChildren ids) :=
    { id := rfl, parent := rfl, detached := rfl, done := rfl
      ended := fun h => (Bool.false_ne_true (hd.symm.trans h)).elim
      children := List.filter_sublist
      dropped := by
        intro c hc hn
        refine hover c (by_contra fun hids => hn (List.mem_filter.mpr ⟨hc, ?_⟩))
        simpa using hids }
  refine ((h.take nofun).modify hu (·.removeChildren ids) hre rfl).turn
    (Registry.get?_modify_of_eq_some _ hu) fun c hc hids => ?_
  have hn := (List.mem_filter.mp hc).2
  simp [hids] at hn

end Core

namespace Config

variable {r : Registry}

/-- A task that waits has had its turn: what it waits for has an answer, or it is left waiting. -/
theorem settled_waiting (core : Core begun r [] [.round ids rest, .loop root] (some t))
    (hu : r.get? t = some u) {i i' : Interruption} {ok : Bool} {r' : Registry}
    (hw : u.Waiting r (news r [] [.round ids (t :: rest), .loop root] t) i)
    (hk : i.kind ≠ .children) (hs : Registry.Settled r ids t i ok i' r') :
    (ok = true ∧
      Core begun (r'.modify t (·.awaiting i')) [] [.round ids rest, .loop root] (some t) ∧
      ∃ v a, (r'.modify t (·.awaiting i')).get? t = some v ∧ v.Answered i' a) ∨
    (ok = false ∧
      Core begun (r'.modify t (·.awaiting i')) [] [.round ids rest, .loop root] none) := by
  cases hs with
  | @answered a _ _ kind answer flagged =>
    left
    obtain ⟨c, l, hu', _⟩ := flagged.eq_some hu
    have core' : Core begun r' [] [.round ids rest, .loop root] (some t) := by
      refine core.flagged (· = t) flagged ?_ ?_ ?_
      · rintro d v ⟨v', hv', hp⟩ hv
        rw [hv', Option.some.injEq] at hv
        exact ⟨t, hv ▸ hp, rfl⟩
      · rintro j rfl
        exact Or.inl rfl
      · intro c hc
        simp at hc
    have hv := Registry.get?_modify_of_eq_some (·.awaiting i') hu'
    refine ⟨rfl, core'.modify hu' _ (.of_unfinished rfl rfl rfl hw.done hw.done rfl) rfl, _, a, hv,
      ?_⟩
    exact ⟨rfl, answer, hw.done, hw.running, fun _ => hw.error, fun h => (hk (kind ▸ h)).elim,
      fun h => (hk (kind ▸ h)).elim⟩
  | left kind awaits still _ =>
    right
    have hb : u.awaiting i' = u.block i' := by
      have hwait : u.wait = .tier i'.kind.tier := kind ▸ hw.tier
      simp only [Task.awaiting, Task.block, ← hwait]
    refine ⟨rfl, core.block hu hb hw.done hw.error hw.running awaits fun d hd => ?_⟩
    obtain ⟨hmem, hdone⟩ := still d hd
    have hh := hw.hears d hmem
    by_cases hids : d ∈ ids
    · obtain ⟨v, hv, _⟩ := hh
      exact Registry.hears_of_unfinished ⟨v, hv⟩ (hdone hids)
    · exact hh.congr (fun _ => rfl) fun hx => mem_news_turn hx (Or.inr hids)

/-- The turn of a blocked task: its interruption is settled, and it is selected if that answers it.
-/
theorem continueRound_blocked (hu : m.registry.get? t = some u)
    {i i' : Interruption} (h : u.Blocked i)
    {ok : Bool} {r' : Registry}
    (hs : (m.registry.modify t (·.removeChildren ids)).settle t i ids = .ok (ok, i', r')) :
    continueRound m stack ids (t :: rest) =
      ⟨{ m with registry := r'.modify t (·.awaiting i') }, .round ids rest :: stack,
        if ok then .runTask t else .done⟩ := by
  have hget : m.get? t = some u := hu
  have hres : i.resolved = false := by rw [Interruption.resolved, h.unanswered]; rfl
  have hs' : (m.modify t fun task => task.removeChildren ids).registry.settle t i ids =
      .ok (ok, i', r') := hs
  unfold continueRound
  simp only [hget, h.done, h.interruption, hres, hs', h.tier, Wait.isNow, h.running,
    Bool.false_eq_true, if_false, Bool.not_false, Bool.and_true]
  cases ok <;> rfl

/-- A task that waits still does once it has lost the children that are over, and what it waits for
is settled without fail. -/
theorem settle_visited (core : Core begun r [] [.round ids (t :: rest), .loop root] none)
    (hu : r.get? t = some u) {i : Interruption}
    (h : u.Waiting r (news r [] [.round ids (t :: rest), .loop root] t) i) :
    ∃ ok i' r', (r.modify t (·.removeChildren ids)).settle t i ids = .ok (ok, i', r') ∧
      (u.removeChildren ids).Waiting (r.modify t (·.removeChildren ids))
        (news (r.modify t (·.removeChildren ids)) [] [.round ids (t :: rest), .loop root] t) i ∧
      Registry.Settled (r.modify t (·.removeChildren ids)) ids t i ok i' r' := by
  have hev : r.Evolves (r.modify t (·.removeChildren ids)) (· = t)
      fun _ => False := .modify hu rfl rfl rfl rfl
  have hw : (u.removeChildren ids).Waiting (r.modify t (·.removeChildren ids))
      (news (r.modify t (·.removeChildren ids)) [] [.round ids (t :: rest), .loop root] t) i :=
    ⟨⟨h.interruption, h.unanswered, h.tier, h.done, h.running⟩, h.error, h.awaits.evolve hev id,
      fun d hd => (h.hears d hd).evolve hev (fun _ => id) fun _ => mem_news_of_finished⟩
  have hid : (u.removeChildren ids).id = t := core.forest.id_eq (t := u) hu
  obtain ⟨ok, i', r', he, hs⟩ := Registry.settle_waiting ids hw hid h.awaits.kind_ne_children
  exact ⟨ok, i', r', he, hw, hs⟩

/-- The turn of a task that waits: its interruption is settled, and it is selected if that answers
it. -/
theorem continueRound_waiting
    (core : Core begun m.registry [] [.round ids (t :: rest), .loop root] none)
    (hu : m.registry.get? t = some u) {i : Interruption}
    (h : u.Waiting m.registry (news m.registry [] [.round ids (t :: rest), .loop root] t) i) :
    ∃ ok i' r', continueRound m [.loop root] ids (t :: rest) =
        ⟨{ m with registry := r'.modify t (·.awaiting i') }, [.round ids rest, .loop root],
          if ok then .runTask t else .done⟩ ∧
      (u.removeChildren ids).Waiting (m.registry.modify t (·.removeChildren ids))
        (news (m.registry.modify t (·.removeChildren ids)) []
          [.round ids (t :: rest), .loop root] t) i ∧
      Registry.Settled (m.registry.modify t (·.removeChildren ids)) ids t i ok i' r' := by
  obtain ⟨ok, i', r', he, hw, hs⟩ := settle_visited core hu h
  exact ⟨ok, i', r', continueRound_blocked hu h.toBlocked he, hw, hs⟩

theorem sound_visit_waiting
    (core : Core begun m.registry [] [.round ids (t :: rest), .loop root] none)
    (hu : m.registry.get? t = some u) {i : Interruption}
    (h : u.Waiting m.registry (news m.registry [] [.round ids (t :: rest), .loop root] t) i) :
    (continueRound m [.loop root] ids (t :: rest)).Sound begun := by
  have nested : Nested none [.round ids rest, .loop root] := .round ids rest root
  obtain ⟨ok, i', r', he, hw, hs⟩ := continueRound_waiting core hu h
  rw [he]
  rcases settled_waiting (core.visit hu h.done) (Registry.get?_modify_of_eq_some _ hu) hw
    h.awaits.kind_ne_children hs with ⟨rfl, hcore, v, a, hv, hans⟩ | ⟨rfl, hcore⟩
  · exact .selected hcore nested hv (Or.inr ⟨i', a, hans⟩)
  · exact .resting hcore nested

/-- The turn of a task that holds what it has for its children. -/
theorem sound_visit_holding
    (core : Core begun m.registry [] [.round ids (t :: rest), .loop root] none)
    (hu : m.registry.get? t = some u) {i : Interruption} (h : u.Holding i) :
    (continueRound m [.loop root] ids (t :: rest)).Sound begun := by
  have nested : Nested none [.round ids rest, .loop root] := .round ids rest root
  have core' := core.visit hu h.done
  have hu' := Registry.get?_modify_of_eq_some (·.removeChildren ids) hu
  have hcore : ∀ i', Core begun ((m.registry.modify t (·.removeChildren ids)).modify t
      (·.awaiting i')) [] [.round ids rest, .loop root] (some t) :=
    fun i' => core'.modify hu' (·.awaiting i') (.of_unfinished rfl rfl rfl h.done h.done rfl) rfl
  have hget' := fun i' => Registry.get?_modify_of_eq_some (·.awaiting i') hu'
  have he := Registry.settle_children hu' h.kind ids
  by_cases hc : (u.removeChildren ids).children = []
  · rw [if_pos hc] at he
    rw [continueRound_blocked hu h.toBlocked he, if_pos rfl]
    have hans : ((u.removeChildren ids).awaiting (i.resolve i.pending)).Answered
        (i.resolve i.pending) i.pending :=
      ⟨rfl, rfl, h.done, h.running, fun hk => (hk h.kind).elim, fun _ => hc, fun _ => h.holds⟩
    exact .selected (hcore _) nested (hget' _) (Or.inr ⟨_, _, hans⟩)
  · rw [if_neg hc] at he
    rw [continueRound_blocked hu h.toBlocked he, if_neg Bool.false_ne_true]
    have hb : ((u.removeChildren ids).awaiting i).Blocked i :=
      ⟨rfl, h.unanswered, h.tier, h.done, h.running⟩
    exact .resting ((hcore i).put (hget' i) h.running
      (.holding i ⟨hb, h.kind, h.coroutine, hc, h.holds⟩) fun _ => hb.not_fresh) nested

/-- The turn of an unfinished task. -/
theorem sound_visit (core : Core begun m.registry [] [.round ids (t :: rest), .loop root] none)
    (hu : m.registry.get? t = some u) (hd : u.done = false) :
    (continueRound m [.loop root] ids (t :: rest)).Sound begun := by
  cases core.stands hu with
  | ended hd' _ => exact (Bool.false_ne_true (hd.symm.trans hd')).elim
  | active _ hr => exact absurd ((core.running_iff hu).mp hr) nofun
  | waiting i h => exact sound_visit_waiting core hu h
  | holding i h => exact sound_visit_holding core hu h
  | fresh h =>
    have hget : m.get? t = some u := hu
    unfold continueRound
    simp only [hget, hd, Bool.false_eq_true, if_false, h.interruption]
    have hu' := Registry.get?_modify_of_eq_some (·.removeChildren ids) hu
    have hfresh : (u.removeChildren ids).Fresh :=
      ⟨h.done, h.running, h.interruption, h.error, by simp [Task.removeChildren, h.children],
        h.coroutine⟩
    refine .resting ((core.visit hu hd).put hu' h.running (.fresh hfresh) fun hb => ?_)
      (.round ids rest root)
    exact (core.not_begun hu h hb).elim

theorem sound_continueRound (core : Core begun m.registry [] (.round ids rest :: stack) none)
    (nested : Nested none (.round ids rest :: stack)) :
    (continueRound m stack ids rest).Sound begun := by
  cases nested with
  | round _ _ root =>
    cases rest with
    | nil =>
      obtain rfl : root = 0 := core.frames (.loop root) (by simp)
      refine .bubbling (core.reap rfl fun i => ?_) rfl fun d hd => ?_
      · simp [Frame.tells]
      · exact Registry.isDone_iff.mpr (core.forest.mem_finished hd)
    | cons t rest =>
      have nested : Nested none [.round ids rest, .loop root] := .round ids rest root
      cases hu : m.registry.get? t with
      | none =>
        have hget : m.get? t = none := hu
        unfold continueRound
        simp only [hget]
        refine .resting (core.pass fun u hu' => ?_) nested
        rw [hu] at hu'
        cases hu'
      | some u =>
        cases hd : u.done with
        | false => exact sound_visit core hu hd
        | true =>
          have hget : m.get? t = some u := hu
          unfold continueRound
          simp only [hget, hd, if_true]
          refine .resting (core.pass fun v hv => ?_) nested
          rw [hu, Option.some.injEq] at hv
          exact hv ▸ hd

end Config

end Rehearsal
