import Rehearsal.Proofs.Engine.Origins

/-!
# The effects that are interpreted

The effects that a run interprets, in their order, and what the record shows of them. Each call and
each fork is planned once, each action that has a handler is handled once, at the moment it is
interpreted, wherever it stands; and nothing else is planned or handled.
-/
namespace Rehearsal

variable {σ : Type}

/-- What can be counted from outside: that a function was called, or that an action was dispatched.
-/
inductive Occurrence where
  | called (call : Call)
  | dispatched (d : Dispatched)

def Effect.occurrence? : Effect → Option Occurrence
  | .call fn args kwargs | .fork fn args kwargs _ => some (.called ⟨fn, args, kwargs⟩)
  | .put action object => some (.dispatched ⟨action, object⟩)
  | _ => none

def Exchange.occurrence? : Exchange → Option Occurrence
  | .planned call _ _ => some (.called call)
  | .handled e _ _ => match e with
    | .put action object => some (.dispatched ⟨action, object⟩)
    | _ => none
  | _ => none

namespace Config

def interpreted? (o : RunOptions) (c : Config σ) : Option Effect :=
  match c.control with
  | .interpret _ (.effect e) _ => if c.machine.steps < o.stepLimit then some e else none
  | _ => none

/-- The effects that are interpreted in a run of at most so many steps. -/
def effects (w : World σ) (o : RunOptions) : Nat → Config σ → List Effect
  | 0, _ => []
  | fuel + 1, c =>
    if c.isFinal then [] else (c.interpreted? o).toList ++ effects w o fuel (c.step w o)

end Config

def Machine.occurrences (m : Machine (σ × List Exchange)) : List Occurrence :=
  m.outer.2.filterMap Exchange.occurrence?

/-! ### Steps that tell the world of no effect -/

def Effect.isTold : Effect → Bool
  | .call .. | .fork .. | .select .. | .watch .. | .put .. | .take .. | .question .. => true
  | _ => false

def Control.tells : Control → Bool
  | .interpret _ (.effect e) _ => e.isTold
  | _ => false

def World.deaf (w : World σ) : World σ :=
  { w with plan := fun _ _ _ s => (.ok .real, s), handler? := fun _ => none }

/-- What is counted of a record with one more entry. -/
theorem Exchange.occurrences_append (log : List Exchange) (x : Exchange) :
    (log ++ [x]).filterMap occurrence? = log.filterMap occurrence? ++ x.occurrence?.toList := by
  rw [List.filterMap_append]
  cases h : x.occurrence? <;> simp [h]

theorem World.deaf_closed (w : World σ) (counted : List Occurrence) :
    w.recorded.deaf.Closed fun s => s.2.filterMap Exchange.occurrence? = counted where
  resume _ _ _ _ h := (Exchange.occurrences_append ..).trans ((List.append_nil _).trans h)
  plan _ _ _ _ h := h
  invoke _ _ _ h := (Exchange.occurrences_append ..).trans ((List.append_nil _).trans h)
  handle h := (Option.some_ne_none _ h.symm).elim

namespace Config

variable {w : World σ} {o : RunOptions}

theorem step_deaf (w : World σ) (o : RunOptions) {c : Config σ} (h : c.control.tells = false) :
    c.step w.deaf o = c.step w o := by
  obtain ⟨m, stack, control⟩ := c
  cases control with
  | interpret t effect b =>
    cases effect with
    | effect e => cases e <;> first | rfl | cases h
    | _ => rfl
  | _ => rfl

/-- A step that tells the world of no effect adds nothing to be counted. -/
theorem occurrences_step_of_tells {c : Config (σ × List Exchange)} (h : c.control.tells = false) :
    (c.step w.recorded o).machine.occurrences = c.machine.occurrences := by
  rw [← step_deaf w.recorded o h]
  exact outer_step (w.deaf_closed c.machine.occurrences) o rfl

end Config

/-! ### Steps that do -/

namespace Machine

variable (w : World σ) (m : Machine (σ × List Exchange)) (t : Nat)

theorem occurrences_produce (plan : CallPlan) (call : Call) :
    (m.produce w.recorded plan call).2.occurrences = m.occurrences := by
  unfold produce
  split
  · rfl
  · split
    · exact (Exchange.occurrences_append ..).trans (List.append_nil _)
    · rfl

theorem machine_produced (m : Machine σ) (v : Value) : (m.produced v).machine = m := by
  unfold produced
  split <;> rfl

/-- A call counts once, whatever becomes of it. -/
theorem occurrences_interpretCall (call : Call) :
    (m.interpretCall w.recorded t call).machine.occurrences = m.occurrences ++ [.called call] := by
  unfold interpretCall
  rw [plan_recorded]
  generalize w.plan m.view call false m.outer.1 = asked
  obtain ⟨answer, s⟩ := asked
  have hasked := Exchange.occurrences_append m.outer.2 (.planned call false answer)
  cases answer with
  | error f => exact hasked
  | ok plan =>
    dsimp only
    split
    · have hproduce := occurrences_produce w
        ({ m with outer := (s, m.outer.2 ++ [.planned call false (.ok plan)]) } : Machine _) plan
          call
      generalize Machine.produce _ _ plan call = made at hproduce ⊢
      obtain ⟨produced, m'⟩ := made
      cases produced with
      | error e => exact hproduce.trans hasked
      | ok v =>
        dsimp only
        rw [machine_produced]
        exact hproduce.trans hasked
    · exact hasked

/-- A fork counts once, whatever becomes of it. -/
theorem occurrences_interpretFork (call : Call) (detached : Bool) :
    (m.interpretFork w.recorded t call detached).machine.occurrences =
      m.occurrences ++ [.called call] := by
  unfold interpretFork
  rw [plan_recorded]
  generalize w.plan m.view call true m.outer.1 = asked
  obtain ⟨answer, s⟩ := asked
  have hasked := Exchange.occurrences_append m.outer.2 (.planned call true answer)
  cases answer with
  | error f => exact hasked
  | ok plan =>
    dsimp only
    split <;> exact hasked

/-- An effect with a handler counts once if it is an action. -/
theorem occurrences_interpretExternal {e : Effect} (b : Bool) (external : e.kind = .external)
    (handled : ∀ action object, e = .put action object → (w.handler? e).isSome = true) :
    (m.interpretExternal w.recorded t e b).machine.occurrences =
      m.occurrences ++ e.occurrence?.toList := by
  have hrecorded : w.recorded.handler? e = (w.handler? e).map fun handler view context s =>
    ((handler view context s.1).1, (handler view context s.1).2,
      s.2 ++ [.handled e context (handler view context s.1).1]) := rfl
  unfold interpretExternal
  rw [hrecorded]
  cases hhandler : w.handler? e with
  | none =>
    have hnone : e.occurrence? = none := by
      cases e with
      | put action object =>
        have hsome := handled action object rfl
        rw [hhandler] at hsome
        cases hsome
      | call | fork => cases external
      | _ => rfl
    rw [hnone]
    exact (List.append_nil _).symm
  | some handler =>
    dsimp only [Option.map_some]
    generalize handler m.view _ m.outer.1 = asked
    obtain ⟨answer, s⟩ := asked
    have hasked :
        (m.outer.2 ++ [Exchange.handled e ⟨⟨t, m.nameOf t, true⟩, b, m.steps⟩ answer]).filterMap
        Exchange.occurrence? = m.occurrences ++ e.occurrence?.toList := by
      rw [Exchange.occurrences_append]
      cases e with
      | call | fork => cases external
      | _ => rfl
    cases answer with
    | error f => exact hasked
    | ok reaction => cases reaction <;> exact hasked

end Machine

namespace Config

variable {w : World σ} {o : RunOptions}

/-- **What a step adds to be counted is the effect that it interprets.** -/
theorem occurrences_step
    (handled : ∀ action object, (w.handler? (.put action object)).isSome = true)
    (c : Config (σ × List Exchange)) :
    (c.step w.recorded o).machine.occurrences =
      c.machine.occurrences ++ (c.interpreted? o).toList.filterMap Effect.occurrence? := by
  cases htells : c.control.tells with
  | false =>
    have hnone : (c.interpreted? o).toList.filterMap Effect.occurrence? = [] := by
      unfold interpreted?
      split
      · rename_i e _ hcontrol
        rw [hcontrol] at htells
        split
        · cases e <;> first | rfl | cases htells
        · rfl
      · rfl
    rw [occurrences_step_of_tells htells, hnone, List.append_nil]
  | true =>
    obtain ⟨m, stack, control⟩ := c
    obtain ⟨t, e, b, rfl, htold⟩ :
        ∃ t e b, control = .interpret t (.effect e) b ∧ e.isTold = true := by
      cases control with
      | interpret t effect b =>
        cases effect with
        | effect e => exact ⟨t, e, b, rfl, htells⟩
        | _ => cases htells
      | _ => cases htells
    show (m.interpret w.recorded o t (.effect e) b).machine.occurrences = _
    unfold interpreted?
    dsimp only
    split
    case isFalse hlimit =>
      obtain ⟨f, htick, _⟩ := @Machine.tick_of_le _ m o (Nat.not_lt.mp hlimit)
      unfold Machine.interpret
      rw [htick]
      exact (List.append_nil _).symm
    case isTrue hlimit =>
      have htick := m.tick_of_lt hlimit
      rw [Machine.interpret_counted w.recorded o m t _ b (by rw [htick]), htick]
      show (Machine.interpretEffect _ { m with steps := m.steps + 1 } t e b).machine.occurrences = _
      have hfilter : [e].filterMap Effect.occurrence? = e.occurrence?.toList := by
        cases h : e.occurrence? <;> simp [h]
      rw [Option.toList_some, hfilter]
      cases e with
      | call fn args kwargs => exact Machine.occurrences_interpretCall ..
      | fork fn args kwargs detached => exact Machine.occurrences_interpretFork ..
      | select | watch | put | take | question =>
        exact Machine.occurrences_interpretExternal w { m with steps := m.steps + 1 } t b rfl
          fun action object h => h ▸ handled action object
      | _ => cases htold

/-- **What a run adds to be counted are the effects that it interprets**, in their order. -/
theorem occurrences_run
    (handled : ∀ action object, (w.handler? (.put action object)).isSome = true) (n : Nat)
    (c : Config (σ × List Exchange)) :
    (run w.recorded o n c).machine.occurrences =
      c.machine.occurrences ++ (effects w.recorded o n c).filterMap Effect.occurrence? := by
  induction n generalizing c with
  | zero => exact (List.append_nil _).symm
  | succ n ih =>
    unfold run effects
    split
    · exact (List.append_nil _).symm
    · rw [ih, occurrences_step handled, List.filterMap_append, List.append_assoc]

/-- The record does not change what is interpreted. -/
theorem effects_recorded (w : World σ) (o : RunOptions) (n : Nat) (c : Config (σ × List Exchange)) :
    effects w.recorded o n c = effects w o n (c.seen Prod.fst) := by
  induction n generalizing c with
  | zero => rfl
  | succ n ih =>
    unfold effects
    rw [ih, ← step_seen o w.recorded_mimics]
    rfl

end Config

end Rehearsal
