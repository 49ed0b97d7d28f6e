import Rehearsal.Proofs.Engine.Lineage

/-!
# How long a frame waits for its wards

A ward has its place on the stack: from its making on it is tended right above the same frames, and
until the frame that tends it goes on, nothing below is resumed. A ward that has failed is not let
go of, so when that frame goes on, it goes on with a failure.
-/
namespace Rehearsal

variable {σ : Type} {begun : Nat → Prop}

/-- A frame of which `P` holds stands right above `below`. -/
inductive Tops (P : Frame → Prop) (below : List Frame) : List Frame → Prop
  | top {f : Frame} (holds : P f) : Tops P below (f :: below)
  | under {f : Frame} {stack : List Frame} (h : Tops P below stack) : Tops P below (f :: stack)

/-- A frame with ward `a` stands right above `below`. -/
abbrev Tended (a : Nat) : List Frame → List Frame → Prop := Tops fun f => a ∈ f.wards

namespace Tops

variable {P Q : Frame → Prop} {f : Frame} {stack below : List Frame}

theorem imp (h : Tops P below stack) (hPQ : ∀ f ∈ stack, P f → Q f) : Tops Q below stack := by
  induction h with
  | top holds => exact .top (hPQ _ (List.mem_cons_self ..) holds)
  | under _ ih => exact .under (ih fun f hf => hPQ f (List.mem_cons_of_mem _ hf))

theorem exists_mem (h : Tops P below stack) : ∃ f ∈ stack, P f := by
  induction h with
  | top holds => exact ⟨_, List.mem_cons_self .., holds⟩
  | under _ ih =>
    obtain ⟨f, hf, holds⟩ := ih
    exact ⟨f, List.mem_cons_of_mem _ hf, holds⟩

theorem of_mem (hf : f ∈ stack) (holds : P f) : ∃ below, Tops P below stack := by
  induction stack with
  | nil => cases hf
  | cons g stack ih =>
    rcases List.mem_cons.mp hf with rfl | hf
    · exact ⟨stack, .top holds⟩
    · obtain ⟨below, h⟩ := ih hf
      exact ⟨below, .under h⟩

/-- Another frame than the one looked for is taken off. -/
theorem pop (h : Tops P below (f :: stack)) (hf : ¬ P f) : Tops P below stack := by
  cases h with
  | top holds => exact (hf holds).elim
  | under h => exact h

theorem runners_subset (h : Tops P below stack) : runners below ⊆ runners stack := by
  induction h with
  | top _ => exact runners_subset_cons ..
  | under _ ih => exact List.Subset.trans ih (runners_subset_cons ..)

/-- Something stands above `below`. -/
theorem exists_cons (h : Tops P below stack) : ∃ g rest, stack = g :: rest ∧ below ⊆ rest := by
  induction h with
  | top _ => exact ⟨_, _, rfl, List.Subset.refl _⟩
  | under _ ih =>
    obtain ⟨g, rest, rfl, hsub⟩ := ih
    exact ⟨_, _, rfl, List.Subset.trans hsub (List.subset_cons_self ..)⟩

/-- Frames that drive a task may be put on or taken off. -/
theorem resumes {control : Control} {t : Nat} {s : Signal} {under : List Frame}
    (h : Tops P below stack) (hr : Resumes stack control t s under) (hP : ∀ t, ¬ P (.driving t)) :
    Tops P below under := by
  cases hr with
  | driven _ _ _ => exact h
  | _ => exact h.pop (hP _)

variable {a : Nat}

/-- Frames without wards tend nobody. -/
theorem skip (h : Tended a below (f :: stack)) (hf : f.wards = []) : Tended a below stack := by
  refine h.pop ?_
  rw [hf]
  exact List.not_mem_nil

theorem mem_holds (h : Tended a below stack) : ∃ f ∈ stack, a ∈ f.holds := by
  obtain ⟨f, hf, ha⟩ := h.exists_mem
  exact ⟨f, hf, List.mem_append_left _ ha⟩

variable {r : Registry}

/-- A ward of the top frame is tended by it. -/
theorem of_top {g : Frame} (hl : Lineage r (g :: stack)) (ha : a ∈ g.wards)
    (h : Tended a below (g :: stack)) : stack = below := by
  cases h with
  | top _ => rfl
  | under h =>
    obtain ⟨f, hf, hmem⟩ := h.mem_holds
    exact (Nat.lt_irrefl a (hl.fits.young a ha f hf a hmem)).elim

end Tops

variable {o : RunOptions} {a : Nat} {below : List Frame} {c c' : Config σ}

/-- The step from `c` to `c'` puts the frame on the stack, right above the given ones: for a task
that is resumed, for one that is forked, for a race or gather and its next member, or for the main
loop. -/
inductive Config.Pushes (c c' : Config σ) : Frame → List Frame → Prop
  | resumed {t : Nat} {s : Signal} {below : List Frame}
      (resumes : Resumes c.stack c.control t s below) :
      Pushes c c' (.driving t) below
  | forked {t : Nat} {effect : Value} {b : Bool} {u : Task}
      (control : c.control = .interpret t effect b)
      (next : c'.control = .start c.machine.registry.size)
      (made : c'.machine.registry.get? c.machine.registry.size = some u)
      (born : c.machine.registry.Born t u) :
      Pushes c c' (.forked c.machine.registry.size) c.stack
  | opened {k : Composite} {effect member : Value} {b : Bool}
      (control : c.control = .interpret k.task effect b)
      (members : k.members = [c.machine.registry.size])
      (next : c'.control = .interpret c.machine.registry.size member true) :
      Pushes c c' (.composite k) c.stack
  | grown {k k' : Composite} {below : List Frame} {member : Value}
      (stack : c.stack = .composite k :: below)
      (control : c.control = .done) (task : k'.task = k.task)
      (members : k'.members = k.members ++ [c.machine.registry.size])
      (next : c'.control = .interpret c.machine.registry.size member true) :
      Pushes c c' (.composite k') below
  | member {below : List Frame} {member : Value}
      (next : c'.control = .interpret c.machine.registry.size member true) :
      Pushes c c' (.member c.machine.registry.size) below
  | looped {f : Frame} {below : List Frame} (wards : f.wards = []) (idle : f.runner? = none) :
      Pushes c c' f below

/-- A frame stood where it stands before the step, or the step has put it there. -/
theorem Turn.tops_before {P : Frame → Prop} (turn : Turn o c c') (h : Tops P below c'.stack) :
    Tops P below c.stack ∨ ∃ f, P f ∧ c.Pushes c' f below := by
  have hunder : ∀ {t s rest}, Resumes c.stack c.control t s rest → Tops P below rest →
      Tops P below c.stack := by
    intro t s rest hr h
    obtain ⟨m, stack, control⟩ := c
    cases hr with
    | driven _ _ _ => exact h
    | _ => exact .under h
  cases turn with
  | yields resumes _ | dies resumes _ =>
    cases h with
    | top holds => exact Or.inr ⟨_, holds, .resumed resumes⟩
    | under h => exact Or.inl (hunder resumes h)
  | returns resumes _ | escapes resumes _ => exact Or.inl (hunder resumes h)
  | forks _ _ _ _ made born =>
    cases h with
    | top holds => exact Or.inr ⟨_, holds, .forked rfl rfl made born⟩
    | under h => exact Or.inl h
  | @opens m _ stack t effect member b k u task members _ _ =>
    subst task
    cases h with
    | top holds =>
      exact Or.inr ⟨_, holds, .member (rfl : Control.interpret m.registry.size member true = _)⟩
    | under h =>
      cases h with
      | top holds => exact Or.inr ⟨_, holds, .opened rfl members rfl⟩
      | under h => exact Or.inl h
  | continues _ _ _ task members _ _ =>
    cases h with
    | top holds => exact Or.inr ⟨_, holds, .member rfl⟩
    | under h =>
      cases h with
      | top holds => exact Or.inr ⟨_, holds, .grown rfl rfl task members rfl⟩
      | under h => exact Or.inl (.under h)
  | picks _ _ frames _ =>
    cases h with
    | top holds =>
      rcases frames with ⟨_, _, rfl⟩ | ⟨_, _, _, rfl⟩ <;> exact Or.inr ⟨_, holds, .looped rfl rfl⟩
    | under h => exact Or.inl (.under h)
  | rounds | unblocks =>
    cases h with
    | top holds => exact Or.inr ⟨_, holds, .looped rfl rfl⟩
    | under h => exact Or.inl h
  | ends _ => cases h
  | unwinds stack _ =>
    cases stack with
    | nil => exact Or.inl h
    | cons f stack => exact Or.inl (.under h)
  | fills | enters | blocks | sinks | concludes | condemns | marks | rethrows | bubbles =>
    exact Or.inl (.under h)
  | _ => exact Or.inl h

/-- A task that was there has not been put on the stack since. -/
theorem Turn.tended_before (turn : Turn o c c') (ha : a < c.machine.registry.size)
    (h : Tended a below c'.stack) : Tended a below c.stack := by
  have hfresh : a ≠ c.machine.registry.size := Nat.ne_of_lt ha
  rcases turn.tops_before h with h | ⟨f, hward, hpush⟩
  · exact h
  cases hpush with
  | resumed _ => cases hward
  | forked _ _ _ _ => exact (hfresh (List.mem_singleton.mp hward)).elim
  | opened _ members _ => exact (hfresh (List.mem_singleton.mp (members ▸ hward))).elim
  | @grown k k' _ _ stack _ _ members _ =>
    have hmem : a ∈ k.members ++ [c.machine.registry.size] := members ▸ hward
    rw [stack]
    exact .top ((List.mem_append.mp hmem).resolve_right fun h => hfresh (List.mem_singleton.mp h))
  | member _ => cases hward
  | looped wards _ =>
    rw [wards] at hward
    cases hward

/-- The frame that tends ward `a` goes on above nothing but `below`: with the first failure among
its wards, or with an answer if there is none to tell. -/
structure Config.Resolves (c c' : Config σ) (f : Frame) (below : List Frame) : Prop where
  control : c.control = .done
  stack : c.stack = f :: below
  outcome : (∃ e, c.machine.firstError? f.wards = some e ∧
      c' = ⟨c.machine, below, (Failure.exn e).control⟩) ∨
    ((∃ answer, c'.control = .answer answer) ∧ ∀ a ∈ f.wards, ∀ u, c.machine.get? a = some u →
      u.error = none ∨ (f = .forked a ∧ u.detached = true))

theorem Machine.firstError?_eq_none {m : Machine σ} {placeholders : List Nat}
    (h : m.firstError? placeholders = none) {a : Nat} (ha : a ∈ placeholders) {u : Task}
    (hu : m.get? a = some u) : u.error = none := by
  have hnone := List.findSome?_eq_none_iff.mp h a ha
  rwa [hu, Option.bind_some] at hnone

theorem Machine.firstError?_eq_some {m : Machine σ} {placeholders : List Nat} {e : Exn}
    (h : m.firstError? placeholders = some e) :
    ∃ a ∈ placeholders, ∃ u, m.get? a = some u ∧ u.error = some e := by
  obtain ⟨a, ha, he⟩ := List.exists_of_findSome?_eq_some h
  obtain ⟨u, hu, he⟩ := Option.bind_eq_some_iff.mp he
  exact ⟨a, ha, u, hu, he⟩

/-- A frame stands as it is, whatever is put above it, until what is above has ended, has been
answered or has raised. -/
theorem Turn.tops_stay {P : Frame → Prop} (turn : Turn o c c') (live : ∀ f, c.control ≠ .abort f)
    (h : Tops P below c.stack) :
    Tops P below c'.stack ∨ ∃ f, P f ∧ c.stack = f :: below ∧
      (c.control = .done ∨ (∃ a, c.control = .answer a) ∨ ∃ e, c.control = .raised e) := by
  have hresumed : ∀ {t s under}, Resumes c.stack c.control t s under → Tops P below under ∨
      ∃ f, P f ∧ c.stack = f :: below ∧
        (c.control = .done ∨ (∃ a, c.control = .answer a) ∨ ∃ e, c.control = .raised e) := by
    intro t s under hr
    obtain ⟨m, stack, control⟩ := c
    cases hr with
    | driven _ _ _ => exact Or.inl h
    | answered _ _ _ =>
      cases h with
      | top holds => exact Or.inr ⟨_, holds, rfl, Or.inr (Or.inl ⟨_, rfl⟩)⟩
      | under h => exact Or.inl h
    | entered _ _ _ =>
      cases h with
      | top holds => exact Or.inr ⟨_, holds, rfl, Or.inr (Or.inl ⟨_, rfl⟩)⟩
      | under h => exact Or.inl h
    | thrown _ _ _ =>
      cases h with
      | top holds => exact Or.inr ⟨_, holds, rfl, Or.inr (Or.inr ⟨_, rfl⟩)⟩
      | under h => exact Or.inl h
  have htop : ∀ {f rest}, c.stack = f :: rest →
      (c.control = .done ∨ (∃ a, c.control = .answer a) ∨ ∃ e, c.control = .raised e) →
      Tops P below rest ∨ ∃ f, P f ∧ c.stack = f :: below ∧
        (c.control = .done ∨ (∃ a, c.control = .answer a) ∨ ∃ e, c.control = .raised e) := by
    intro f rest hstack hcontrol
    rw [hstack] at h
    cases h with
    | top holds => exact Or.inr ⟨f, holds, hstack, hcontrol⟩
    | under h => exact Or.inl h
  cases turn with
  | yields resumes _ => exact (hresumed resumes).imp_left .under
  | returns resumes _ => exact hresumed resumes
  | escapes resumes _ => exact hresumed resumes
  | dies resumes _ => exact (hresumed resumes).imp_left .under
  | fills _ _ _ => exact htop rfl (Or.inr (Or.inl ⟨_, rfl⟩))
  | enters _ _ _ => exact htop rfl (Or.inr (Or.inl ⟨_, rfl⟩))
  | blocks _ _ _ => exact htop rfl (Or.inr (Or.inl ⟨_, rfl⟩))
  | sinks _ _ _ => exact htop rfl (Or.inr (Or.inr ⟨_, rfl⟩))
  | forks _ _ _ _ _ _ => exact Or.inl (.under h)
  | opens _ _ _ _ _ _ _ _ _ => exact Or.inl (.under (.under h))
  | continues _ _ _ _ _ _ _ => exact (htop rfl (Or.inl rfl)).imp_left fun h => .under (.under h)
  | concludes _ _ _ _ => exact htop rfl (Or.inl rfl)
  | condemns _ _ _ => exact htop rfl (Or.inl rfl)
  | marks _ _ _ => exact htop rfl (Or.inl rfl)
  | rethrows _ _ _ _ => exact htop rfl (Or.inl rfl)
  | picks _ _ _ _ => exact (htop rfl (Or.inl rfl)).imp_left .under
  | bubbles _ _ _ => exact htop rfl (Or.inl rfl)
  | rounds _ _ _ => exact Or.inl (.under h)
  | unblocks _ _ => exact Or.inl (.under h)
  | ends _ => exact htop rfl (Or.inl rfl)
  | unwinds _ f => exact (live f rfl).elim
  | _ => exact Or.inl h

/-- A frame with wards stands, whatever is put above it, until it goes on. A composite may take on
members meanwhile. -/
theorem Turn.tops_after {P : Frame → Prop} (turn : Turn o c c') (habort : ∀ f, c.control ≠ .abort f)
    (hP : ∀ f, P f → f.wards ≠ [])
    (hgrow : ∀ k k' a, P (.composite k) → k'.members = k.members ++ [a] → P (.composite k'))
    (h : Tops P below c.stack) :
    Tops P below c'.stack ∨ ∃ f, P f ∧ c.Resolves c' f below := by
  rcases turn.tops_stay habort h with h | ⟨f, holds, hstack, hcontrol⟩
  · exact Or.inl h
  have hwards := hP f holds
  obtain ⟨m, stack, control⟩ := c
  obtain rfl : stack = f :: below := hstack
  have hresumes : ∀ {t s under}, Resumes (f :: below) control t s under →
      (control = .done ∨ (∃ a, control = .answer a) ∨ ∃ e, control = .raised e) → f.wards = [] := by
    intro t s under hr hcontrol
    cases hr with
    | driven _ _ _ => rcases hcontrol with h | ⟨_, h⟩ | ⟨_, h⟩ <;> cases h
    | _ => rfl
  cases turn with
  | continues _ _ _ _ members _ _ => exact Or.inl (.under (.top (hgrow _ _ _ holds members)))
  | concludes _ rest hale answer =>
    exact Or.inr ⟨_, holds, rfl, rfl, Or.inr ⟨⟨answer, rfl⟩, fun _ ha _ hu =>
      Or.inl (Machine.firstError?_eq_none hale ha hu)⟩⟩
  | condemns _ rest first => exact Or.inr ⟨_, holds, rfl, rfl, Or.inl ⟨_, first, rfl⟩⟩
  | marks _ task hale =>
    refine Or.inr ⟨_, holds, rfl, rfl, Or.inr ⟨⟨_, rfl⟩, fun b hb v hv => ?_⟩⟩
    obtain rfl := List.mem_singleton.mp hb
    rw [show Machine.get? _ _ = some _ from task, Option.some.injEq] at hv
    exact hv ▸ hale.imp id fun hd => ⟨rfl, hd⟩
  | @rethrows m _ child u e task error attached =>
    refine Or.inr ⟨_, holds, rfl, rfl, Or.inl ⟨e, ?_, rfl⟩⟩
    have hget : m.get? child = some u := task
    simp [Machine.firstError?, Frame.wards, hget, error]
  | yields resumes _ => exact (hwards (hresumes resumes hcontrol)).elim
  | returns resumes _ => exact (hwards (hresumes resumes hcontrol)).elim
  | escapes resumes _ => exact (hwards (hresumes resumes hcontrol)).elim
  | dies resumes _ => exact (hwards (hresumes resumes hcontrol)).elim
  | blocks runner _ _ =>
    refine (hwards ?_).elim
    cases f <;> first | rfl | cases runner
  | picks _ _ frames _ =>
    rcases frames with ⟨_, rfl, _⟩ | ⟨_, _, rfl, _⟩ <;> exact (hwards rfl).elim
  | bubbles _ frame _ => rcases frame with rfl | ⟨_, rfl⟩ <;> exact (hwards rfl).elim
  | fills _ _ _ => exact (hwards rfl).elim
  | enters _ _ _ => exact (hwards rfl).elim
  | sinks _ _ _ => exact (hwards rfl).elim
  | unblocks _ _ => exact (hwards rfl).elim
  | stops _ _ => exact (hwards rfl).elim
  | ends _ => exact (hwards rfl).elim
  | _ => rcases hcontrol with h | ⟨_, h⟩ | ⟨_, h⟩ <;> cases h

/-- A frame that raises an exception goes off the stack and changes nothing else. A fork raises only
what an attached task has failed of. -/
theorem Turn.raised_inv {f : Frame} {e : Exn} (turn : Turn o c c') (hcontrol : c.control = .done)
    (hstack : c.stack = f :: below) (hr : c'.control = .raised e) :
    c'.machine = c.machine ∧ c'.stack = below ∧ ∀ child u, f = .forked child →
      c.machine.registry.get? child = some u → u.detached = false := by
  cases turn with
  | condemns _ _ _ =>
    cases hstack
    refine ⟨rfl, rfl, ?_⟩
    rintro _ _ ⟨⟩
  | rethrows _ task _ attached =>
    cases hstack
    refine ⟨rfl, rfl, ?_⟩
    rintro _ v ⟨⟩ hv
    rw [task, Option.some.injEq] at hv
    exact hv ▸ attached
  | yields resumes _ => cases hr
  | returns resumes _ => cases hr
  | escapes resumes _ => cases hr
  | dies resumes _ => cases hr
  | picks _ _ _ leads => rcases leads with rfl | rfl <;> cases hr
  | refuses _ _ _ _ _ => cases hcontrol
  | runs _ _ _ => cases hcontrol
  | starts _ _ _ => cases hcontrol
  | climbs _ _ _ _ => cases hcontrol
  | _ => cases hr

/-- Whoever is resumed does not run below. -/
theorem Resumes.not_mem_runners {r : Registry} {stack below : List Frame}
    {control : Control} {t : Nat}
    {s : Signal} (h : Resumes stack control t s below) (hs : Sound begun r stack control) :
    t ∉ runners below := by
  cases h with
  | driven _ _ _ =>
    cases hs with
    | driving core _ _ _ => exact core.aside t rfl
  | answered _ _ _ =>
    cases hs with
    | answered core _ _ => exact (List.nodup_cons.mp core.alone).1
  | entered _ _ _ =>
    cases hs with
    | answered core _ _ => exact (List.nodup_cons.mp core.alone).1
  | thrown _ _ _ =>
    cases hs with
    | raised _ core _ => exact (List.nodup_cons.mp core.alone).1

/-- Whoever runs below is not resumed while a frame stands above that drives nobody. -/
theorem Config.unresumed_of_tops {P : Frame → Prop} (hc : c.Sound begun)
    (hP : ∀ t, ¬ P (.driving t))
    (h : Tops P below c.stack) {p : Nat} (hp : p ∈ runners below) : c.resumption? p = none := by
  cases hs : c.resumption? p with
  | none => rfl
  | some s =>
    obtain ⟨under, hr⟩ := Config.resumption?_eq_some.mp hs
    exact (hr.not_mem_runners hc ((h.resumes hr hP).runners_subset hp)).elim

end Rehearsal
