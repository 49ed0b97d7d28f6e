import Rehearsal.Proofs.Engine.Finality
import Rehearsal.Proofs.Task.Results

/-!
# The course of a race or gather

From the moment its task yields it until it is concluded, a race or gather stands on the stack right
above the frames that stood there, and takes on its members one after the other, each with a
placeholder of its own.
-/
namespace Rehearsal

variable {σ : Type} {begun : Nat → Prop} {t : Nat} {w : World σ} {o : RunOptions}

def Effect.ofMembers : Bool → Members → Effect
  | true, members => .race members
  | false, members => .gather members

/-- The frame of the task that an effect is interpreted for is on top. -/
theorem Nested.exists_runner {stack : List Frame} (h : Nested (some t) stack) :
    ∃ f below, stack = f :: below ∧ f.runner? = some t := by
  obtain ⟨f, below, rfl, rfl | rfl, _⟩ := h.inv_some
  · exact ⟨_, below, rfl, rfl⟩
  · exact ⟨_, below, rfl, rfl⟩

namespace Machine

theorem interpretEffect_ofMembers (m : Machine σ) (w : World σ) (t : Nat)
    (race : Bool) (members : Members)
    (b : Bool) :
    m.interpretEffect w t (.ofMembers race members) b = m.interpretComposite t race members := by
  cases race <;> rfl

theorem values_memberItems (members : Members) :
    (memberItems members).map (·.2) = members.values := by
  cases members with
  | keyed m => rfl
  | listed xs =>
    show (xs.zipIdx.map fun e => (Value.int e.2, e.1)).map (·.2) = xs
    rw [List.map_map]
    exact List.zipIdx_map_fst ..

end Machine

namespace Config

variable {c : Config σ} {n : Nat}

/-- The task of an effect that is interpreted is driven by the top frame. -/
theorem exists_frame_of_interpret (hc : c.Sound begun) {effect : Value} {b : Bool}
    (hcontrol : c.control = .interpret t effect b) :
    ∃ f below, c.stack = f :: below ∧ f.runner? = some t := by
  obtain ⟨m, stack, control⟩ := c
  obtain rfl : control = .interpret t effect b := hcontrol
  cases hc with
  | interpreting _ _ _ nested => exact nested.exists_runner

/-- Within `n` steps from `c` on, a placeholder `p` that belongs to task `t` is given `member` to
interpret. -/
def Asks (w : World σ) (o : RunOptions) (c : Config σ) (t n : Nat) (member : Value) (p : Nat) :
    Prop :=
  ∃ j ≤ n, (run w o j c).control = .interpret p member true ∧
    ∃ u, (run w o j c).machine.registry.get? p = some u ∧ u.parent = some t

theorem Asks.mono {n' : Nat} {member : Value} {p : Nat}
    (h : Asks w o c t n member p) (hn : n ≤ n') :
    Asks w o c t n' member p := by
  obtain ⟨j, hj, h⟩ := h
  exact ⟨j, Nat.le_trans hj hn, h⟩

/-- After `n` steps the race or gather over `members` that task `t` began in `c` has come as far as
`k`: the members that have been looked at have their placeholders. -/
structure Collects (w : World σ) (o : RunOptions) (c : Config σ) (t : Nat)
    (race : Bool) (members : Members)
    (n : Nat) (k : Composite) : Prop where
  task : k.task = t
  race : k.isRace = race
  keyed : k.keyed = Machine.isKeyed members
  seen : ∃ seen, Machine.memberItems members = seen ++ k.rest ∧
    List.Forall₂ (fun item e => item.1 = e.1 ∧ Asks w o c t n item.2 e.2) seen k.made
  sorted : (k.made.map (·.2)).Pairwise (· < ·)
  made : ∀ p ∈ k.made.map (·.2), p < (run w o n c).machine.registry.size

/-- The composite stands right above the frames that stood when it began. -/
def Stands (w : World σ) (o : RunOptions) (c : Config σ) (t : Nat) (race : Bool) (members : Members)
    (n : Nat) : Prop :=
  ∃ k, Collects w o c t race members n k ∧ Tops (· = .composite k) c.stack (run w o n c).stack

def Concluded (w : World σ) (o : RunOptions) (c : Config σ) (t : Nat)
    (race : Bool) (members : Members)
    (n : Nat) : Prop :=
  ∃ k m, Collects w o c t race members n k ∧ k.rest = [] ∧
    run w o n c = ofOutcome c.stack (Machine.concludeComposite m k)

variable {race : Bool} {members : Members} {k : Composite}

theorem Collects.mono {n' : Nat} (h : Collects w o c t race members n k) (hn : n ≤ n') :
    Collects w o c t race members n' k where
  task := h.task
  race := h.race
  keyed := h.keyed
  seen := by
    obtain ⟨seen, hitems, hseen⟩ := h.seen
    exact ⟨seen, hitems, hseen.imp fun _ _ h => ⟨h.1, h.2.mono hn⟩⟩
  sorted := h.sorted
  made := by
    intro p hp
    obtain ⟨d, rfl⟩ := Nat.exists_eq_add_of_le hn
    rw [run_add]
    exact Nat.lt_of_lt_of_le (h.made p hp) (size_run w o d)

/-- The composite goes on: to its next member, or to its conclusion. -/
theorem Collects.next {m : Machine σ} (h : Collects w o c t race members n k)
    (hm : m.registry = (run w o n c).machine.registry)
    (hnext : run w o (n + 1) c = ofOutcome c.stack (m.continueComposite k))
    (hc : (run w o (n + 1) c).Sound begun) :
    Stands w o c t race members (n + 1) ∨ Concluded w o c t race members (n + 1) := by
  cases hrest : k.rest with
  | nil =>
    right
    have hconclude : m.continueComposite k = m.concludeComposite k := by
      unfold Machine.continueComposite
      rw [hrest]
    exact ⟨k, m, h.mono (Nat.le_succ n), hrest, hconclude ▸ hnext⟩
  | cons item rest =>
    left
    obtain ⟨key, member⟩ := item
    have hgo : ∃ m', m.continueComposite k = ⟨m', [.member m.registry.size,
        .composite { k with made := k.made ++ [(key, m.registry.size)], rest }],
        .interpret m.registry.size member true⟩ := by
      unfold Machine.continueComposite
      rw [hrest]
      simp only [Machine.create_eq]
      exact ⟨_, rfl⟩
    obtain ⟨m', hgo⟩ := hgo
    rw [hgo] at hnext
    have hstack : (run w o (n + 1) c).stack = .member m.registry.size ::
        .composite { k with made := k.made ++ [(key, m.registry.size)], rest } :: c.stack := by
      rw [hnext]
      rfl
    have hcontrol : (run w o (n + 1) c).control = .interpret m.registry.size member true := by
      rw [hnext]
      rfl
    have howned : ∃ u, (run w o (n + 1) c).machine.registry.get? m.registry.size = some u ∧
        u.parent = some k.task := by
      have hs : Rehearsal.Sound begun (run w o (n + 1) c).machine.registry (run w o (n + 1) c).stack
        (run w o (n + 1) c).control := hc
      rw [hstack, hcontrol] at hs
      cases hs with
      | interpreting _ _ core _ =>
        have hframe := core.frames _ (List.mem_cons_of_mem _ (List.mem_cons_self ..))
        obtain ⟨u, hu, hp, _⟩ := hframe (key, m.registry.size) (by simp)
        exact ⟨u, hu, hp⟩
    refine ⟨{ k with made := k.made ++ [(key, m.registry.size)], rest }, ⟨h.task, h.race, h.keyed,
      ?_, ?_, ?_⟩, by rw [hstack]; exact .under (.top rfl)⟩
    · obtain ⟨seen, hitems, hseen⟩ := (h.mono (Nat.le_succ n)).seen
      refine ⟨seen ++ [(key, member)], by rw [hitems, hrest, List.append_assoc]; rfl, ?_⟩
      refine List.rel_append hseen (.cons ⟨rfl, n + 1, Nat.le_refl _, hcontrol, ?_⟩ .nil)
      exact h.task ▸ howned
    · rw [List.map_append, List.pairwise_append]
      refine ⟨h.sorted, List.pairwise_singleton .., fun p hp q hq => ?_⟩
      rw [List.mem_singleton.mp hq, hm]
      exact h.made p hp
    · intro p hp
      rw [List.map_append, List.mem_append] at hp
      rcases hp with hp | hp
      · exact (h.mono (Nat.le_succ n)).made p hp
      · rw [List.mem_singleton.mp hp]
        obtain ⟨u, hu, _⟩ := howned
        exact Registry.get?_eq_some_lt hu

/-- A race or gather begins with its first member, or is concluded at once where there is none,
unless it fails at once. -/
theorem stands_first {b : Bool} (hc : c.Sound begun)
    (hcontrol : c.control = .interpret t (.effect (.ofMembers race members)) b)
    (hale : ∀ f : Failure, c.step w o ≠ ⟨c.machine.counted, c.stack, f.control⟩) :
    Stands w o c t race members 1 ∨ Concluded w o c t race members 1 := by
  have hone : run w o (0 + 1) c = c.step w o := run_one w o (by simp [isFinal, hcontrol]) 0
  obtain ⟨_, _, hs⟩ := sound_run w o hc (0 + 1)
  have hstep : c.step w o =
      ofOutcome c.stack (c.machine.interpret w o t (.effect (.ofMembers race members)) b) := by
    unfold step
    rw [hcontrol]
  rcases c.machine.interpret_effect_cases w o t (.ofMembers race members) b with ⟨f, he⟩ | he
  · rw [he] at hstep
    exact (hale f hstep).elim
  · have hbegins : Collects w o c t race members 0
        ⟨t, race, Machine.isKeyed members, [], Machine.memberItems members⟩ :=
      ⟨rfl, rfl, rfl, ⟨[], rfl, .nil⟩, .nil, fun p hp => (List.not_mem_nil hp).elim⟩
    rw [he, Machine.interpretEffect_ofMembers] at hstep
    exact hbegins.next (m := c.machine.counted) rfl (hone.trans hstep) hs

/-- While the composite stands, it goes on once what is above it has ended. -/
theorem Stands.step (hc : c.Sound begun) (h : Stands w o c t race members n)
    (live : ∀ f, (run w o n c).control ≠ .abort f) :
    Stands w o c t race members (n + 1) ∨ Concluded w o c t race members (n + 1) := by
  obtain ⟨k, hk, htops⟩ := h
  obtain ⟨begun', _, hs⟩ := sound_run w o hc n
  obtain ⟨_, _, hs'⟩ := sound_run w o hc (n + 1)
  obtain ⟨g, above, habove, _⟩ := htops.exists_cons
  have hgo : run w o (n + 1) c = (run w o n c).step w o := by
    rw [run_succ, if_neg]
    simp [isFinal, habove]
  have hturn := turn_step w o hs
  rw [← hgo] at hturn
  rcases hturn.tops_stay live htops with htops | ⟨g, rfl, htop, hat⟩
  · exact Or.inl ⟨k, hk.mono (Nat.le_succ _), htops⟩
  have hdone : (run w o n c).control = .done := by
    have hs : Rehearsal.Sound begun' (run w o n c).machine.registry (run w o n c).stack
      (run w o n c).control := hs
    rw [htop] at hs
    rcases hat with hat | ⟨a, hat⟩ | ⟨e, hat⟩
    · exact hat
    · rw [hat] at hs
      cases hs with
      | answered _ nested _ => cases nested
    · rw [hat] at hs
      cases hs with
      | raised _ _ nested => cases nested
  refine hk.next rfl ?_ hs'
  rw [hgo]
  unfold Config.step
  rw [hdone, htop]
  rfl

/-- Once all members have been looked at, each has its placeholder. -/
theorem Collects.asked (h : Collects w o c t race members n k) (hrest : k.rest = []) :
    List.Forall₂ (Asks w o c t n) members.values (k.made.map (·.2)) := by
  obtain ⟨seen, hitems, hseen⟩ := h.seen
  rw [hrest, List.append_nil] at hitems
  rw [← Machine.values_memberItems, hitems, List.forall₂_map_left_iff, List.forall₂_map_right_iff]
  exact hseen.imp fun _ _ h => h.2

end Config

end Rehearsal
