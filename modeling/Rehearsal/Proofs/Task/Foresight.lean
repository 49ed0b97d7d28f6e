import Rehearsal.Engine.Settle
import Rehearsal.Proofs.Task.Results

/-!
# What blocked tasks will go on with

Say what every task comes to, before it has: `val d` is the value of task `d`. A structure of slots
then promises a value, whatever part of it is settled by now, and so does an interruption. Rounds
may settle an interruption in any order and in as many goes as they like; as long as those that end
come to what was said, the promise stands, and the answer is what was promised.
-/
namespace Rehearsal

variable {val val' : Nat → Value} {n n' : Nat} {v : Value} {r r' : Registry}

def Registry.Fulfils (r : Registry) (val : Nat → Value) : Prop :=
  ∀ d, r.isDone d = true → r.resultOf d = val d

theorem Registry.Fulfils.modify (h : r.Fulfils val) (t : Nat) (f : Task → Task)
    (hd : ∀ u, (f u).done = u.done) (hr : ∀ u, (f u).result = u.result) :
    (r.modify t f).Fulfils val := by
  intro d hdone
  rw [isDone_modify r t d f hd] at hdone
  rw [(Keeps.modify r t f hd hr).resultOf hdone]
  exact h d hdone

namespace Pending

def foresee (val : Nat → Value) : Pending → Pending
  | .task d => .completed (val d)
  | slot => slot

/-- The structure comes to `v` once the tasks it waits for, all of them below `n`, come to what is
said. -/
structure Promises (val : Nat → Value) (n : Nat) (p : Pending) (v : Value) : Prop where
  lt : ∀ d ∈ p.waitingOn, d < n
  value : (p.mapSlots (foresee val)).unwrap = v

namespace Promises

variable {p : Pending}

/-- More may be said of tasks that are made later. -/
theorem mono (h : p.Promises val n v) (hn : n ≤ n') (hval : ∀ d < n, val' d = val d) :
    p.Promises val' n' v where
  lt := fun d hd => Nat.lt_of_lt_of_le (h.lt d hd) hn
  value := by
    rw [← h.value]
    refine congrArg unwrap (mapSlots_congr fun slot hslot => ?_)
    cases slot with
    | task d => exact congrArg completed (hval d (h.lt d (mem_waitingOn.mpr hslot)))
    | _ => rfl

/-- Settling a piece of the structure changes nothing of the promise. -/
theorem settle (h : p.Promises val n v) (hr : r.Fulfils val) :
    (r.settleFinished p).Promises val n v where
  lt := fun d hd => h.lt d (mem_waitingOn_settleFinished.mp hd).1
  value := by
    rw [Registry.mapSlots_settleFinished, h.value]
    intro slot
    cases slot with
    | task d =>
      cases hd : r.isDone d with
      | true =>
        rw [Registry.settleSlot_of_done hd, hr d hd]
        rfl
      | false => rw [Registry.settleSlot_of_not_done hd]
    | _ => rfl

/-- A structure that waits for nothing is what was promised. -/
theorem unwrap_eq (h : p.Promises val n v) (hn : p.waitingOn = []) : p.unwrap = v := by
  have hslot : ∀ slot ∈ p.slots, (foresee val slot).slotValue = slot.slotValue := by
    intro slot hslot
    cases slot with
    | task d =>
      have hd := mem_waitingOn.mpr hslot
      rw [hn] at hd
      cases hd
    | _ => rfl
  rw [← h.value]
  cases p with
  | list ps =>
    refine congrArg Value.list (Eq.symm ?_)
    rw [List.map_map]
    exact List.map_congr_left hslot
  | tuple ps =>
    refine congrArg Value.list (Eq.symm ?_)
    rw [List.map_map]
    exact List.map_congr_left hslot
  | keyed frozen es =>
    refine congrArg (fun es => Value.dict ⟨false, es⟩) (Eq.symm ?_)
    rw [List.map_map]
    exact List.map_congr_left fun e he => congrArg (e.1, ·) (hslot e.2 (List.mem_map_of_mem he))
  | task d => cases hn
  | _ => rfl

end Promises

end Pending

/-! ### Interruptions -/

/-- The task blocked by the interruption goes on with `v`, or has it already and waits for its
children. -/
inductive Interruption.Promises (val : Nat → Value) (n : Nat) (v : Value) (i : Interruption) : Prop
  | child {d : Nat} (kind : i.kind = .generator) (dependencies : i.dependencies = [d]) (lt : d < n)
      (value : val d = v) (answer : ∀ a, i.answer = some a → a = .value v)
  | gather (kind : i.kind = .all) (pending : i.pending.Promises val n v)
      (answer : ∀ a, i.answer = some a → a = .value v)
  | children (kind : i.kind = .children) (pending : i.pending = .returned v)
      (answer : ∀ a, i.answer = some a → a = .returned v)

namespace Interruption.Promises

variable {i i' : Interruption}

theorem mono (h : i.Promises val n v) (hn : n ≤ n') (hval : ∀ d < n, val' d = val d) :
    i.Promises val' n' v := by
  cases h with
  | child kind dependencies lt value answer =>
    exact .child kind dependencies (Nat.lt_of_lt_of_le lt hn) ((hval _ lt).trans value) answer
  | gather kind pending answer => exact .gather kind (pending.mono hn hval) answer
  | children kind pending answer => exact .children kind pending answer

theorem ne_join (h : i.Promises val n v) : i.kind ≠ .join := by
  cases h <;> simp_all

/-- **A round keeps the promise**: whatever it settles, and with whatever it answers. -/
theorem settle (h : i.Promises val n v) (hr : r.Fulfils val) {t : Nat} {ids : List Nat} {ok : Bool}
    (hids : ∀ d ∈ ids, r.isDone d = true) (he : r.settle t i ids = .ok (ok, i', r')) :
    r' = r ∧ i'.kind = i.kind ∧ i'.Promises val n v := by
  cases h with
  | @child d kind dependencies lt value answer =>
    simp only [Registry.settle, kind, dependencies] at he
    split at he
    · rename_i hd
      have hdone := hids d (List.contains_iff_mem.mp hd)
      obtain ⟨u, hu, -⟩ := Registry.isDone_iff.mp hdone
      have hresult : u.result = v := by
        have hval := hr d hdone
        simp only [Registry.resultOf, hu] at hval
        exact hval.trans value
      simp only [hu] at he
      cases he
      refine ⟨rfl, rfl, .child kind dependencies lt value ?_⟩
      rintro a ⟨⟩
      rw [hresult]
    · cases he
      exact ⟨rfl, rfl, .child kind dependencies lt value answer⟩
  | gather kind pending answer =>
    simp only [Registry.settle, kind] at he
    have settled := pending.settle hr
    split at he
    · split at he
      · rename_i hnil
        cases he
        refine ⟨rfl, kind.symm, .gather rfl settled ?_⟩
        rintro a ⟨⟩
        rw [settled.unwrap_eq (List.isEmpty_iff.mp hnil)]
      · cases he
        exact ⟨rfl, kind.symm, .gather rfl settled answer⟩
    · cases he
      exact ⟨rfl, rfl, .gather kind pending answer⟩
  | children kind pending answer =>
    simp only [Registry.settle, kind] at he
    split at he
    · split at he
      · cases he
        refine ⟨rfl, rfl, .children kind pending ?_⟩
        rintro a ⟨⟩
        exact pending
      · cases he
        exact ⟨rfl, rfl, .children kind pending answer⟩
    · cases he
      exact ⟨rfl, rfl, .children kind pending answer⟩

end Interruption.Promises

/-! ### Tasks -/

def Coroutine.ofRoot (g t : Nat) : Option Coroutine := if t = 0 then some ⟨[g], true⟩ else none

/-- Nothing is being done about task `t`, and it will come to `val t`: it is over, or a call with
that output that has not been made, or it is blocked by what promises that. -/
inductive Task.Ripens (val : Nat → Value) (n g t : Nat) (u : Task) : Prop
  | ended (done : u.done = true) (result : u.result = val t)
  | planned {wait : Wait} {call : Call} (opened : u.done = false) (idle : u.interruption = none)
      (entry : u.entry = some (.planned ⟨false, val t, none, wait⟩ call))
      (plain : ∀ g, val t ≠ .generator g)
  | blocked {i : Interruption} (interruption : u.interruption = some i)
      (promises : i.Promises val n (val t))
      (coroutine : i.kind ≠ .children → u.coroutine = Coroutine.ofRoot g t)

namespace Task.Ripens

variable {g t : Nat} {u u' : Task}

theorem mono (h : u.Ripens val n g t) (hn : n ≤ n') (hval : ∀ d < n, val' d = val d) (ht : t < n) :
    u.Ripens val' n' g t := by
  have he := hval t ht
  cases h with
  | ended done result => exact .ended done (result.trans he.symm)
  | planned opened idle entry plain =>
    exact .planned opened idle (by rw [he]; exact entry) (by rw [he]; exact plain)
  | blocked interruption promises coroutine =>
    exact .blocked interruption (by rw [he]; exact promises.mono hn hval) coroutine

/-- What a blocked task waits for promises what the task comes to. -/
theorem of_blocked {i : Interruption} (h : u.Ripens val n g t) (hd : u.done = false)
    (hi : u.interruption = some i) :
    i.Promises val n (val t) ∧ (i.kind ≠ .children → u.coroutine = Coroutine.ofRoot g t) := by
  cases h with
  | ended done _ =>
    rw [hd] at done
    cases done
  | planned _ idle _ _ =>
    rw [hi] at idle
    cases idle
  | blocked interruption promises coroutine =>
    obtain rfl := Option.some.inj (hi.symm.trans interruption)
    exact ⟨promises, coroutine⟩

/-- Flags and children do not count. -/
theorem spared (h : u.Ripens val n g t) (a b : Bool) (cs : List Nat) :
    ({ u.flag a b with children := cs } : Task).Ripens val n g t := by
  cases h with
  | ended done result => exact .ended done result
  | planned opened idle entry plain => exact .planned opened idle entry plain
  | blocked interruption promises coroutine => exact .blocked interruption promises coroutine

end Task.Ripens

end Rehearsal
