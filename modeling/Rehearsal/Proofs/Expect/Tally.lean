import Mathlib.Algebra.BigOperators.Group.Finset.Piecewise
import Rehearsal.Proofs.Expect.Asking
import Rehearsal.Proofs.Script.Outlook

/-!
# Tallies

Whatever happens counts towards the first entry of a list, in the order of configuration, that takes
it. The tally of a list of expectations says of each entry what counts towards it, read off
everything that has happened; the ledgers, which are told of one call or action at a time, keep it.
-/
namespace Rehearsal

open Script

/-! ### Sharing out what happens -/

section Share

variable {ε α : Type} {takes : α → ε → Bool} {credit : ε → List α → ε}

/-- What counts towards the entry at `i`: whatever no entry before it takes, but it does. -/
def share (takes : α → ε → Bool) (es : List ε) (i : Nat) (xs : List α) : List α :=
  xs.filter fun x => es.findIdx? (takes x) == some i

def tally (takes : α → ε → Bool) (credit : ε → List α → ε) (es : List ε) (xs : List α) : List ε :=
  es.mapIdx fun i e => credit e (share takes es i xs)

/-- Credit adds up, and does not change what an entry takes. -/
structure Credits (takes : α → ε → Bool) (credit : ε → List α → ε) : Prop where
  nothing : ∀ e, credit e [] = e
  append : ∀ e xs ys, credit (credit e xs) ys = credit e (xs ++ ys)
  takes : ∀ x e xs, takes x (credit e xs) = takes x e

theorem share_append (es : List ε) (i : Nat) (xs ys : List α) :
    share takes es i (xs ++ ys) = share takes es i xs ++ share takes es i ys :=
      List.filter_append ..

/-- One thing counts once, if an entry takes it at all. -/
theorem sum_length_share_singleton (takes : α → ε → Bool) (es : List ε) (x : α) :
    ∑ i ∈ Finset.range es.length, (share takes es i [x]).length =
      if es.any (takes x) then 1 else 0 := by
  cases hfind : es.findIdx? (takes x) with
  | none =>
    have hnone : es.any (takes x) = false := by simpa using hfind
    simp [share, hfind, hnone]
  | some j =>
    obtain ⟨hj, htakes, -⟩ := List.findIdx?_eq_some_iff_getElem.mp hfind
    have hany : es.any (takes x) = true := List.any_eq_true.mpr ⟨_, List.getElem_mem hj, htakes⟩
    have hcount : ∀ i, (share takes es i [x]).length = if j = i then 1 else 0 := by
      intro i
      by_cases hij : j = i <;> simp [share, hfind, hij]
    simp [hcount, hany, hj]

/-- **Nothing is shared out twice**, and nothing that an entry takes is left out. -/
theorem sum_length_share (takes : α → ε → Bool) (es : List ε) (xs : List α) :
    ∑ i ∈ Finset.range es.length, (share takes es i xs).length = xs.countP fun x =>
      es.any (takes x) := by
  induction xs with
  | nil => simp [share]
  | cons x xs ih =>
    have hsplit : ∀ i, (share takes es i (x :: xs)).length =
        (share takes es i [x]).length + (share takes es i xs).length := fun i => by
      rw [← List.length_append, ← share_append]
      rfl
    simp only [hsplit, Finset.sum_add_distrib, ih, sum_length_share_singleton, List.countP_cons]
    exact Nat.add_comm ..

theorem getElem?_tally (es : List ε) (xs : List α) (i : Nat) :
    (tally takes credit es xs)[i]? = es[i]?.map fun e => credit e (share takes es i xs) :=
  List.getElem?_mapIdx ..

namespace Credits

variable (h : Credits takes credit)
include h

/-- The entries take what they took before. -/
theorem findIdx?_tally (es : List ε) (xs : List α) (x : α) :
    (tally takes credit es xs).findIdx? (takes x) = es.findIdx? (takes x) := by
  have hmap : (tally takes credit es xs).map (takes x) = es.map (takes x) := by
    refine List.ext_getElem? fun i => ?_
    simp only [List.getElem?_map, getElem?_tally, Option.map_map]
    exact congrArg (es[i]?.map ·) (funext fun e => h.takes x e _)
  have hfind : ∀ es : List ε, es.findIdx? (takes x) = (es.map (takes x)).findIdx? id := fun es => by
    rw [List.findIdx?_map]
    rfl
  rw [hfind, hmap, ← hfind]

theorem tally_nil (es : List ε) : tally takes credit es [] = es := by
  refine List.ext_getElem? fun i => ?_
  rw [getElem?_tally]
  simp [share, h.nothing]

/-- **Tallies are kept as things happen**: more is counted as if the counting began with what has
been counted so far. -/
theorem tally_append (es : List ε) (xs ys : List α) :
    tally takes credit es (xs ++ ys) = tally takes credit (tally takes credit es xs) ys := by
  have hshare : ∀ i, share takes (tally takes credit es xs) i ys = share takes es i ys :=
      fun i => by
    simp only [share, h.findIdx?_tally]
  refine List.ext_getElem? fun i => ?_
  simp only [getElem?_tally, Option.map_map, hshare, share_append]
  exact congrArg (es[i]?.map ·) (funext fun e => (h.append e _ _).symm)

/-- One more thing counts towards the first entry that takes it. -/
theorem tally_singleton (es : List ε) (x : α) :
    tally takes credit es [x] = match es.findIdx? (takes x) with
      | some i => es.modify i (credit · [x])
      | none => es := by
  refine List.ext_getElem? fun j => ?_
  rw [getElem?_tally]
  cases hfind : es.findIdx? (takes x) with
  | none => simp [share, hfind, h.nothing]
  | some i =>
    rw [List.getElem?_modify]
    by_cases hij : i = j
    · simp [share, hfind, hij]
    · simp [share, hfind, hij, h.nothing]

end Credits

end Share

/-! ### Predicates that only tell -/

/-- Whatever the memory, the computation yields `a`. -/
def Script.Eval.Gives {α : Type} (x : Eval α) (a : α) : Prop := ∀ mem, (x.run mem).1 = .ok a

namespace Script.Eval.Gives

variable {α β : Type}

theorem pure (a : α) : Gives (Pure.pure a) a := fun _ => rfl

theorem bind {x : Eval α} {f : α → Eval β} {a : α} {b : β} (hx : x.Gives a) (hf : (f a).Gives b) :
    Gives (x >>= f) b := by
  intro mem
  have hvalue := hx mem
  rw [run_bind]
  generalize x.run mem = went at hvalue
  obtain ⟨r, mem'⟩ := went
  obtain rfl : r = .ok a := hvalue
  exact hf mem'

end Script.Eval.Gives

/-- Only a text is the same as a text. -/
theorem Value.eq_of_same_text {v : Value} {s : String} (h : v.same (.text s) = true) :
    v = .text s := by
  cases v with
  | text s' =>
    simp only [same, beq_iff_eq] at h
    rw [h]
  | _ => simp [same, Number.ofValue?] at h

def telling (truth : Value → Value → Bool) (f v : Value) : Id Bool := pure (truth f v)

def Script.Eval.Gives.echo : Echo Eval Id where
  Rel x y := x.Gives y.run
  pure := .pure
  bind hx hf := .bind hx (hf _)

/-! ### Calls -/

namespace CallExpectation

/-- Whether the expectation accepts the arguments, where predicates hold as `truth` says. -/
def takes (truth : Value → Value → Bool) (args : List Value) (e : CallExpectation) : Bool :=
  (paramsMatch (telling truth) e.params args).run

def credit (e : CallExpectation) (argss : List (List Value)) : CallExpectation :=
  { e with received := e.received ++ argss }

theorem credits (truth : Value → Value → Bool) : Credits (takes truth) credit where
  nothing e := by simp [credit]
  append e xs ys := by simp [credit]
  takes _ _ _ := rfl

end CallExpectation

namespace CallLedger

variable {holds : Value → Value → Eval Bool} {truth : Value → Value → Bool}

/-- A call counts towards the first expectation that takes it. -/
theorem countFirst_gives {es : List CallExpectation} (args : List Value)
    (told : ∀ e ∈ es, ∀ f ∈ e.predicates, ∀ v, (holds f v).Gives (truth f v)) :
    (countFirst holds args es).Gives ((es.findIdx? (CallExpectation.takes truth args)).bind fun i =>
      es[i]?.map fun e => (e.record args, es.modify i (·.credit [args]))) := by
  induction es with
  | nil => exact .pure _
  | cons e es ih =>
    have hfirst : (paramsMatch holds e.params args).Gives (e.takes truth args) :=
      Eval.Gives.echo.paramsMatch (told e (List.mem_cons_self ..)) args
    refine .bind hfirst ?_
    rw [List.findIdx?_cons]
    cases e.takes truth args with
    | true => exact .pure _
    | false =>
      refine .bind (ih fun e he => told e (List.mem_cons_of_mem _ he)) ?_
      cases es.findIdx? (CallExpectation.takes truth args) with
      | none => exact .pure _
      | some i =>
        simp only [Option.bind_some, Option.map_some, List.getElem?_cons_succ,
          List.modify_succ_cons,
          Bool.false_eq_true, if_false, Option.map_map]
        exact .pure _

/-- No two groups go by one name. -/
def Distinct (c : CallLedger) : Prop := c.groups.Pairwise fun g h => g.1.same h.1 = false

/-- The arguments of the calls that go by the name. -/
def argumentsOf (name : Value) (calls : List Call) : List (List Value) :=
  (calls.filter fun call => name.same (.text call.name)).map (·.args)

def tallied (truth : Value → Value → Bool) (c : CallLedger) (calls : List Call) : CallLedger :=
  ⟨c.groups.map fun g =>
    (g.1, tally (CallExpectation.takes truth) CallExpectation.credit g.2 (argumentsOf g.1 calls))⟩

theorem tallied_nil (truth : Value → Value → Bool) (c : CallLedger) : c.tallied truth [] = c := by
  have hgroup : ∀ g ∈ c.groups, (g.1, tally (CallExpectation.takes truth) CallExpectation.credit g.2
      (argumentsOf g.1 [])) = g := fun g _ => by
    rw [show argumentsOf g.1 [] = [] from rfl, (CallExpectation.credits truth).tally_nil]
  exact congrArg CallLedger.mk (List.map_congr_left hgroup |>.trans (List.map_id _))

theorem tallied_append (truth : Value → Value → Bool) (c : CallLedger) (calls calls' : List Call) :
    c.tallied truth (calls ++ calls') = (c.tallied truth calls).tallied truth calls' := by
  simp only [tallied, List.map_map, mk.injEq]
  refine List.map_congr_left fun g _ => ?_
  rw [show argumentsOf g.1 (calls ++ calls') = argumentsOf g.1 calls ++ argumentsOf g.1 calls' by
    simp only [argumentsOf, List.filter_append, List.map_append],
      (CallExpectation.credits truth).tally_append]
  rfl

theorem Distinct.tallied {c : CallLedger} (h : c.Distinct) (calls : List Call) :
    (c.tallied truth calls).Distinct := List.pairwise_map.mpr h

theorem mem_predicates_tallied {c : CallLedger} {calls : List Call} {f : Value}
    (h : f ∈ (c.tallied truth calls).predicates) : f ∈ c.predicates := by
  simp only [predicates, CallLedger.tallied, List.flatMap_map, List.mem_flatMap] at h ⊢
  obtain ⟨g, hg, e, he, hf⟩ := h
  obtain ⟨i, hi, rfl⟩ := List.mem_mapIdx.mp he
  exact ⟨g, hg, g.2[i], List.getElem_mem hi, hf⟩

/-- The group of a name is the only one of the name. -/
theorem Distinct.group?_eq {c : CallLedger} (h : c.Distinct) {g : Value × List CallExpectation}
    (hg : g ∈ c.groups) {name : String} (hname : g.1.same (.text name) = true) :
    c.group? name = some g.2 := by
  obtain ⟨groups⟩ := c
  unfold group?
  induction groups with
  | nil => cases hg
  | cons g' groups ih =>
    obtain ⟨hfirst, hrest⟩ := List.pairwise_cons.mp h
    rw [List.find?_cons]
    rcases List.mem_cons.mp hg with rfl | hmem
    · rw [hname]
      rfl
    · have hother : g'.1.same (.text name) = false := by
        rw [← Value.eq_of_same_text hname]
        exact hfirst g hmem
      rw [hother]
      exact ih hrest hmem

/-- **One more call counts towards the first expectation of its name that takes it.** -/
theorem Distinct.tallied_singleton {c : CallLedger} (h : c.Distinct) (call : Call) :
    c.tallied truth [call] =
      match ((c.group? call.name).getD []).findIdx? (CallExpectation.takes truth call.args) with
      | some i =>
        c.putGroup call.name (((c.group? call.name).getD []).modify i (·.credit [call.args]))
      | none => c := by
  have hgroup : ∀ g ∈ c.groups, (g.1, tally (CallExpectation.takes truth) CallExpectation.credit g.2
      (argumentsOf g.1 [call])) = if g.1.same (.text call.name) then (g.1,
        match ((c.group? call.name).getD []).findIdx? (CallExpectation.takes truth call.args) with
        | some i => ((c.group? call.name).getD []).modify i (·.credit [call.args])
        | none => (c.group? call.name).getD []) else g := by
    intro g hg
    cases hname : g.1.same (.text call.name) with
    | true =>
      rw [show argumentsOf g.1 [call] = [call.args] by simp [argumentsOf, hname],
        (CallExpectation.credits truth).tally_singleton, h.group?_eq hg hname]
      rfl
    | false =>
      rw [show argumentsOf g.1 [call] = [] by simp [argumentsOf, hname],
        (CallExpectation.credits truth).tally_nil]
      rfl
  rw [CallLedger.tallied, List.map_congr_left hgroup]
  split
  · rfl
  · refine congrArg CallLedger.mk ((List.map_congr_left fun g hg => ?_).trans (List.map_id _))
    split
    · rename_i hname
      rw [h.group?_eq hg hname]
      rfl
    · rfl

/-- **The ledger is told of one call at a time, and keeps the tally.** -/
theorem Distinct.record_gives {c : CallLedger} (h : c.Distinct)
    (told : ∀ f ∈ c.predicates, ∀ v, (holds f v).Gives (truth f v))
    (call : Call) (step : Option Nat) :
    ∃ r, (c.record holds call.name call.args step).Gives r ∧
      c.tallied truth [call] = match r with
        | .ok (_, c') => c'
        | .error _ => c := by
  have htold : ∀ e ∈ (c.group? call.name).getD [], ∀ f ∈ e.predicates, ∀ v,
      (holds f v).Gives (truth f v) := fun e he f hf => told f (mem_predicates_of_group he hf)
  have hcount := countFirst_gives call.args htold
  have htally := @Distinct.tallied_singleton truth _ h call
  cases hfind : ((c.group? call.name).getD []).findIdx? (CallExpectation.takes truth call.args) with
  | none =>
    rw [hfind] at hcount htally
    exact ⟨_, .bind hcount (.pure _), htally⟩
  | some i =>
    obtain ⟨hi, -⟩ := List.findIdx?_eq_some_iff_getElem.mp hfind
    rw [hfind, Option.bind_some, List.getElem?_eq_getElem hi] at hcount
    rw [hfind] at htally
    exact ⟨_, .bind hcount (.pure _), htally⟩

/-- A call that goes by no configured name counts towards nothing. -/
theorem Distinct.tallied_of_not_contains {c : CallLedger} (h : c.Distinct) {call : Call}
    (hname : c.contains call.name = false) : c.tallied truth [call] = c := by
  have hnone : c.group? call.name = none := by simpa [contains] using hname
  rw [h.tallied_singleton, hnone]
  rfl

end CallLedger

/-! ### Actions -/

namespace ActionExpectation

variable {holds : Value → Value → Eval Bool} {truth : Value → Value → Bool}

def isBlank (e : ActionExpectation) : Bool := e.type.isNone && e.action.isNone

/-- What it comes to where a blank expectation is asked about an action. -/
def blankRefusal : Refusal := .typed "'NoneType' object is not iterable"

/-- The expectation names the type of the action, by itself or in the action. -/
def Typed (e : ActionExpectation) : Prop := ∃ s, e.actionType = .ok (.text s)

/-- Whether the expectation accepts the action, where predicates hold as `truth` says. -/
def takes (truth : Value → Value → Bool) (d : Dispatched) (e : ActionExpectation) : Bool :=
  match (e.accepts (telling truth) d.action).run with
  | .ok accepted => accepted
  | .error _ => false

def credit (e : ActionExpectation) (ds : List Dispatched) : ActionExpectation :=
  { e with received := e.received ++ ds.map (·.object) }

theorem credits (truth : Value → Value → Bool) : Credits (takes truth) credit where
  nothing e := by simp [credit]
  append e xs ys := by simp [credit]
  takes _ _ _ := rfl

theorem Typed.not_blank {e : ActionExpectation} (typed : e.Typed) : e.isBlank = false := by
  obtain ⟨s, htype⟩ := typed
  unfold actionType at htype
  unfold isBlank
  split at htype
  · rename_i hsome
    rw [hsome]
    rfl
  · rename_i hnone hsome
    rw [hnone, hsome]
    rfl
  · cases htype

theorem accepts_gives {e : ActionExpectation}
    (told : ∀ f ∈ e.predicates, ∀ v, (holds f v).Gives (truth f v))
    (d : Dispatched) :
    (e.accepts holds d.action).Gives
      (if e.isBlank then .error blankRefusal else .ok (e.takes truth d)) := by
  have hgives : (e.accepts holds d.action).Gives (e.accepts (telling truth) d.action).run :=
    Eval.Gives.echo.accepts told d.action
  have hvalue : (e.accepts (telling truth) d.action).run =
      if e.isBlank then .error blankRefusal else .ok (e.takes truth d) := by
    obtain ⟨type, expected, times, strict, received⟩ := e
    cases type with
    | some t => rfl
    | none =>
      cases expected with
      | none => rfl
      | some expected =>
        unfold takes accepts
        dsimp only [isBlank, Option.isNone_none, Option.isNone_some, Bool.and_false]
        split <;> rfl
  rwa [hvalue] at hgives

end ActionExpectation

namespace ActionLedger

variable {holds : Value → Value → Eval Bool} {truth : Value → Value → Bool}

def tallied (truth : Value → Value → Bool) (es : List ActionExpectation) (ds : List Dispatched) :
    List ActionExpectation :=
  tally (ActionExpectation.takes truth) ActionExpectation.credit es ds

/-- Whether a blank expectation is asked about the action, before one that takes it. -/
def reachesBlank (truth : Value → Value → Bool) (es : List ActionExpectation) (d : Dispatched) :
    Bool :=
  (es.find? fun e => e.isBlank || e.takes truth d).any (·.isBlank)

theorem reachesBlank_of_typed {es : List ActionExpectation}
    (typed : ∀ e ∈ es, e.Typed) (d : Dispatched) :
    reachesBlank truth es d = false := by
  unfold reachesBlank
  cases hfind : es.find? fun e => e.isBlank || e.takes truth d with
  | none => rfl
  | some e => exact (typed e (List.mem_of_find?_eq_some hfind)).not_blank

/-- An action counts towards the first expectation that takes it, unless that comes after a blank
one. -/
theorem countFirst_gives {es : List ActionExpectation} (d : Dispatched)
    (told : ∀ e ∈ es, ∀ f ∈ e.predicates, ∀ v, (holds f v).Gives (truth f v)) :
    (countFirst holds d es).Gives
      (if reachesBlank truth es d then .error ActionExpectation.blankRefusal
      else .ok ((es.findIdx? (ActionExpectation.takes truth d)).map fun i =>
        es.modify i (·.credit [d]))) := by
  induction es with
  | nil => exact .pure _
  | cons e es ih =>
    refine .bind (ActionExpectation.accepts_gives (told e (List.mem_cons_self ..)) d) ?_
    unfold reachesBlank
    rw [List.findIdx?_cons, List.find?_cons]
    cases hblank : e.isBlank with
    | true =>
      simp only [Bool.true_or, Option.any_some, hblank, if_true]
      exact .pure _
    | false =>
      simp only [Bool.false_or, Bool.false_eq_true, if_false]
      cases e.takes truth d with
      | true =>
        simp only [Option.any_some, hblank, Bool.false_eq_true, if_false, if_true]
        exact .pure _
      | false =>
        refine .bind (ih fun e he => told e (List.mem_cons_of_mem _ he)) ?_
        unfold reachesBlank
        split
        · exact .pure _
        · cases es.findIdx? (ActionExpectation.takes truth d) <;> exact .pure _

theorem leaveOver_expectations {l l' : ActionLedger} {d : Dispatched} {step : Option Nat}
    (h : l.leaveOver d step = .ok l') : l'.expectations = l.expectations := by
  unfold leaveOver at h
  dsimp only at h
  split at h
  · cases h
  · split at h
    · generalize Value.checkKey _ = checked at h
      cases checked with
      | error => cases h
      | ok =>
        cases h
        unfold addStray
        split <;> rfl
    · cases h
      rfl

/-- What recording an action comes to. -/
theorem record_outcome {l : ActionLedger}
    (told : ∀ f ∈ l.predicates, ∀ v, (holds f v).Gives (truth f v))
    (d : Dispatched) (step : Option Nat) :
    (l.record holds d step).Gives
      (if reachesBlank truth l.expectations d then .error
        ActionExpectation.blankRefusal.failure
      else match l.expectations.findIdx? (ActionExpectation.takes truth d) with
        | some i => .ok { l with expectations := l.expectations.modify i (·.credit [d]) }
        | none => l.leaveOver d step) := by
  refine .bind
    (countFirst_gives d fun e he f hf => told f (List.mem_flatMap.mpr ⟨e, he, hf⟩)) ?_
  cases reachesBlank truth l.expectations d with
  | true => exact .pure _
  | false =>
    cases l.expectations.findIdx? (ActionExpectation.takes truth d) <;> exact .pure _

/-- **The ledger is told of one action at a time, and keeps the tally.** -/
theorem record_gives {l : ActionLedger} (typed : ∀ e ∈ l.expectations, e.Typed)
    (told : ∀ f ∈ l.predicates, ∀ v, (holds f v).Gives (truth f v))
    (d : Dispatched) (step : Option Nat) :
    ∃ r, (l.record holds d step).Gives r ∧
      tallied truth l.expectations [d] = match r with
        | .ok l' => l'.expectations
        | .error _ => l.expectations := by
  have houtcome := record_outcome told d step
  have htally := (ActionExpectation.credits truth).tally_singleton l.expectations d
  rw [reachesBlank_of_typed typed, if_neg Bool.false_ne_true] at houtcome
  refine ⟨_, houtcome, htally.trans ?_⟩
  cases l.expectations.findIdx? (ActionExpectation.takes truth d) with
  | some i => rfl
  | none =>
    cases hleft : l.leaveOver d step with
    | ok l' => exact (leaveOver_expectations hleft).symm
    | error => rfl

end ActionLedger

end Rehearsal
