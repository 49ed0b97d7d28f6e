import Rehearsal.Proofs.Expect.Tally

/-!
# What is configured and what is reported

Ledgers are configured with nothing received, and those of calls with one group for each name. At
the end of a run an expectation is reported unless the number of times it says is met by what it has
received.
-/
namespace Rehearsal

section Ensures

variable {ε α β : Type}

def Ensures (x : Except ε α) (P : α → Prop) : Prop := ∀ a, x = .ok a → P a

namespace Ensures

variable {P : α → Prop} {Q : β → Prop}

theorem pure {a : α} (h : P a) : Ensures (Pure.pure a : Except ε α) P := by
  rintro _ ⟨⟩
  exact h

theorem error (e : ε) : Ensures (.error e : Except ε α) P := by
  rintro _ ⟨⟩

theorem bind {x : Except ε α} {f : α → Except ε β} (hx : Ensures x P)
    (hf : ∀ a, P a → Ensures (f a) Q) :
    Ensures (x >>= f) Q := by
  intro b hb
  cases x with
  | error => cases hb
  | ok a => exact hf a (hx a rfl) b hb

theorem any (x : Except ε α) : Ensures x fun _ => True := fun _ _ => trivial

theorem and {P' : α → Prop} {x : Except ε α} (h : Ensures x P) (h' : Ensures x P') :
    Ensures x fun a => P a ∧ P' a := fun a ha => ⟨h a ha, h' a ha⟩

/-- What is true of each result is true of all. -/
theorem mapM {f : α → Except ε β} {xs : List α} (hf : ∀ x ∈ xs, Ensures (f x) Q) :
    Ensures (xs.mapM f) fun ys => ∀ y ∈ ys, Q y := by
  induction xs with
  | nil => exact .pure fun y hy => by cases hy
  | cons x xs ih =>
    rw [List.mapM_cons]
    refine .bind (hf x (List.mem_cons_self ..)) fun y hy =>
      .bind (ih fun x hx => hf x (List.mem_cons_of_mem _ hx)) fun ys hys => .pure fun y' hy' => ?_
    rcases List.mem_cons.mp hy' with rfl | hmem
    · exact hy
    · exact hys y' hmem

/-- What each result keeps of its item, all keep in their order. -/
theorem mapM_kept {γ : Type} {f : α → Except ε β} {before : α → γ} {after : β → γ} {xs : List α}
    (hf : ∀ x ∈ xs, Ensures (f x) fun y => after y = before x) :
    Ensures (xs.mapM f) fun ys => ys.map after = xs.map before := by
  induction xs with
  | nil => exact .pure rfl
  | cons x xs ih =>
    rw [List.mapM_cons]
    exact .bind (hf x (List.mem_cons_self ..)) fun y hy =>
      .bind (ih fun x hx => hf x (List.mem_cons_of_mem _ hx)) fun ys hys =>
        .pure (congrArg₂ List.cons hy hys)

theorem foldlM {f : β → α → Except ε β} {b : β} {xs : List α} (hb : Q b)
    (hf : ∀ b x, Q b → Ensures (f b x) Q) : Ensures (xs.foldlM f b) Q := by
  induction xs generalizing b with
  | nil => exact .pure hb
  | cons x xs ih =>
    rw [List.foldlM_cons]
    exact .bind (hf b x hb) fun b' hb' => ih hb'

end Ensures

end Ensures

theorem exists_mapM_ok_iff {ε α β : Type} {f : α → Except ε β} {xs : List α} :
    (∃ ys, xs.mapM f = .ok ys) ↔ ∀ x ∈ xs, ∃ y, f x = .ok y := by
  induction xs with
  | nil => exact ⟨fun _ => nofun, fun _ => ⟨[], rfl⟩⟩
  | cons x xs ih =>
    rw [List.mapM_cons, List.forall_mem_cons, ← ih]
    cases hx : f x with
    | error => exact ⟨fun ⟨_, h⟩ => (by cases h), fun ⟨⟨_, h⟩, _⟩ => (by cases h)⟩
    | ok y =>
      cases hxs : xs.mapM f with
      | error => exact ⟨fun ⟨_, h⟩ => (by cases h), fun ⟨_, _, h⟩ => (by cases h)⟩
      | ok ys => exact ⟨fun _ => ⟨⟨y, rfl⟩, ys, rfl⟩, fun _ => ⟨y :: ys, rfl⟩⟩

theorem exists_of_mapM_error {ε α β : Type} {f : α → Except ε β} {xs : List α} {e : ε}
    (h : xs.mapM f = .error e) : ∃ x ∈ xs, f x = .error e := by
  induction xs with
  | nil => cases h
  | cons x xs ih =>
    rw [List.mapM_cons] at h
    cases hx : f x with
    | error e' =>
      rw [hx] at h
      cases h
      exact ⟨x, List.mem_cons_self .., hx⟩
    | ok y =>
      rw [hx] at h
      cases hxs : xs.mapM f with
      | error e' =>
        rw [hxs] at h
        cases h
        obtain ⟨x', hmem, hx'⟩ := ih hxs
        exact ⟨x', List.mem_cons_of_mem _ hmem, hx'⟩
      | ok ys =>
        rw [hxs] at h
        cases h

theorem length_of_mapM {ε α β : Type} {f : α → Except ε β} {xs : List α} {ys : List β}
    (h : xs.mapM f = .ok ys) : ys.length = xs.length := by
  have hkept : ys.map (fun _ => ()) = xs.map fun _ => () :=
    Ensures.mapM_kept (fun _ _ _ _ => rfl) ys h
  simpa using congrArg List.length hkept

/-- No two keys of the mapping are equal. -/
def Mapping.Distinct (m : Mapping) : Prop := m.entries.Pairwise fun a b => a.1.same b.1 = false

theorem forall_mem_mapIdx {α β : Type} {f : Nat → α → β} {xs : List α} {P : β → Prop} :
    (∀ y ∈ xs.mapIdx f, P y) ↔ ∀ i x, xs[i]? = some x → P (f i x) := by
  constructor
  · intro h i x hi
    obtain ⟨hlt, rfl⟩ := List.getElem?_eq_some_iff.mp hi
    exact h _ (List.mem_mapIdx.mpr ⟨i, hlt, rfl⟩)
  · intro h y hy
    obtain ⟨i, hlt, rfl⟩ := List.mem_mapIdx.mp hy
    exact h i xs[i] (List.getElem?_eq_getElem hlt)

/-- What is expected so many times happens so often: at least once where no number is given. -/
def MeetsTimes : Option Nat → Nat → Prop
  | none, count => 1 ≤ count
  | some times, count => count = times

instance (times : Option Nat) (count : Nat) : Decidable (MeetsTimes times count) :=
  match times with
  | none => inferInstanceAs (Decidable (1 ≤ count))
  | some times => inferInstanceAs (Decidable (count = times))

theorem isUnmet_eq_false {times : Option Nat} {count : Nat} :
    isUnmet times count = false ↔ MeetsTimes times count := by
  cases times with
  | none => simp [isUnmet, MeetsTimes, Nat.one_le_iff_ne_zero]
  | some n =>
    simp only [isUnmet, MeetsTimes, bne_eq_false_iff_eq]
    exact eq_comm

/-! ### Reports that can be written -/

section Reports

variable {times : Option Nat} {label : String} {name : Value} {expected : Option Value}
  {received : List Value} {count : Nat}

theorem unmetMessage_ok_iff :
    (∃ message, unmetMessage times label name expected received count = .ok message) ↔
      anyLong (shownValues name expected received) = false := by
  unfold unmetMessage checkWritable
  cases anyLong (shownValues name expected received) with
  | true => exact ⟨fun ⟨_, h⟩ => (by cases h), nofun⟩
  | false => exact ⟨fun _ => rfl, fun _ => ⟨_, rfl⟩⟩

theorem eq_of_unmetMessage_error {r : Refusal}
    (h : unmetMessage times label name expected received count = .error r) :
    r = longRefusal none := by
  unfold unmetMessage checkWritable at h
  cases hlong : anyLong (shownValues name expected received) with
  | true =>
    rw [hlong] at h
    cases h
    rfl
  | false =>
    rw [hlong] at h
    cases h

end Reports

/-- Nothing that the report of the expectation shows is too long to be written, where what it
received shows as `look` says. -/
def CallExpectation.Reportable (look : Value → Value) (e : CallExpectation) : Prop :=
  anyLong (shownValues e.name (e.params.map .list)
    (e.received.map fun args => .list (args.map look))) = false

theorem CallExpectation.report_ok_iff {look : Value → Value} {e : CallExpectation} :
    (∃ report, e.report look = .ok report) ↔ e.Reportable look := unmetMessage_ok_iff

/-- The expectation says its type, which can be a key, and nothing that its report shows is too long
to be written, where what it received shows as `look` says. -/
def ActionLedger.Reportable (look : Value → Value) (l : ActionLedger) (e : ActionExpectation) :
    Prop :=
  ∃ t, e.actionType = .ok t ∧ t.unhashable? = none ∧
    anyLong (shownValues t (e.action.map thawed) ((e.received ++ l.straysOf t).map look)) =
      false

/-! ### Configured ledgers -/

theorem CallExpectation.ofValue_ensures (name v : Value) :
    Ensures (ofValue name v) fun e => e.received = [] ∧ e.name = name := by
  unfold ofValue
  refine .bind (.any _) fun _ _ => ?_
  dsimp only
  split
  · refine .bind (.any _) fun unknown _ => ?_
    split
    · exact .bind (.error _) fun _ (h : False) => h.elim
    · refine .bind (.any _) fun _ _ => .bind (.any _) fun _ _ => .bind (.any _) fun _ _ =>
        .bind (.any _) fun _ _ => ?_
      split
      · exact .bind (.error _) fun _ (h : False) => h.elim
      · exact .pure ⟨rfl, rfl⟩
  · exact .error _

theorem ActionExpectation.ofValue_ensures (v : Value) :
    Ensures (ofValue v) fun e => e.received = [] := by
  unfold ofValue
  split
  · dsimp only
    split
    · exact .bind (.error _) fun _ (h : False) => h.elim
    · refine .bind (.any _) fun unknown _ => ?_
      split
      · exact .bind (.error _) fun _ (h : False) => h.elim
      · exact .bind (.any _) fun _ _ => .bind (.any _) fun _ _ => .pure rfl
  · exact .error _

namespace CallLedger

variable {look : Value → Value}

/-- Nothing has been received. -/
def Fresh (c : CallLedger) : Prop := ∀ g ∈ c.groups, ∀ e ∈ g.2, e.received = []

theorem readEntry_ensures (v : Value) :
    Ensures (readEntry v) fun e => e.received = [] ∧ ∃ s, e.name = .text s := by
  unfold readEntry
  dsimp only
  split
  · split
    · rename_i s _
      exact fun e he => ⟨(CallExpectation.ofValue_ensures _ _ e he).1, s,
        (CallExpectation.ofValue_ensures _ _ e he).2⟩
    · exact .error _
  · exact .error _

/-- An expectation is added to the only group of its name. -/
theorem add_configured {c : CallLedger} {e : CallExpectation} (h : c.Fresh ∧ c.Distinct)
    (he : e.received = [] ∧ ∃ s, e.name = .text s) : (c.add e).Fresh ∧ (c.add e).Distinct := by
  obtain ⟨fresh, distinct⟩ := h
  unfold add
  split
  · constructor
    · intro g hg e' he'
      obtain ⟨g', hmem, rfl⟩ := List.mem_map.mp hg
      split at he'
      · rcases List.mem_append.mp he' with he' | he'
        · exact fresh g' hmem e' he'
        · exact List.mem_singleton.mp he' ▸ he.1
      · exact fresh g' hmem e' he'
    · refine List.pairwise_map.mpr (distinct.imp fun {g g'} hne => ?_)
      split <;> split <;> exact hne
  · rename_i hnew
    constructor
    · intro g hg e' he'
      rcases List.mem_append.mp hg with hg | hg
      · exact fresh g hg e' he'
      · rw [List.mem_singleton.mp hg] at he'
        exact List.mem_singleton.mp he' ▸ he.1
    · refine List.pairwise_append.mpr ⟨distinct, List.pairwise_singleton .., fun g hg g' hg' => ?_⟩
      rw [List.mem_singleton.mp hg']
      simpa using List.any_eq_false.mp (Bool.not_eq_true _ ▸ hnew) g hg

/-- **A configured ledger has received nothing**, and has one group for each name. -/
theorem ofValue_ensures {v : Value} (distinct : ∀ m, v = .dict m → m.Distinct) :
    Ensures (ofValue v) fun c => c.Fresh ∧ c.Distinct := by
  unfold ofValue
  have hempty : empty.Fresh ∧ empty.Distinct :=
    ⟨fun _ hg => (List.not_mem_nil hg).elim, List.Pairwise.nil⟩
  cases v with
  | null => exact .pure hempty
  | dict m =>
    have hgroup : ∀ entry ∈ m.entries, Ensures (readGroup entry) fun g =>
        (∀ e ∈ g.2, e.received = []) ∧ g.1 = entry.1 := by
      intro entry _
      unfold readGroup
      split
      · exact .bind (.mapM fun item _ => CallExpectation.ofValue_ensures entry.1 item) fun es hes =>
          .pure ⟨fun e he => (hes e he).1, rfl⟩
      · exact .error _
    refine .bind (.and (.mapM fun entry h g hg => (hgroup entry h g hg).1)
      (.mapM_kept fun entry h g hg => (hgroup entry h g hg).2)) fun groups hgroups => .pure
        ⟨hgroups.1, ?_⟩
    have hkeys : (groups.map Prod.fst).Pairwise fun k k' => k.same k' = false := by
      rw [hgroups.2]
      exact List.pairwise_map.mpr (distinct m rfl)
    exact List.pairwise_map.mp hkeys
  | list items | tuple items =>
    exact .foldlM hempty fun c item hc => .bind (readEntry_ensures item) fun e he =>
      .pure (add_configured hc he)
  | _ => exact .error _

theorem forall_mem_expectations {c : CallLedger} {P : CallExpectation → Prop} :
    (∀ e ∈ c.expectations, P e) ↔ ∀ g ∈ c.groups, ∀ e ∈ g.2, P e :=
  List.forall_mem_flatMap

/-- **The reports can be made if one can be made of all that is unmet.** -/
theorem unmetMessages_ok_iff {c : CallLedger} :
    (∃ messages, c.unmetMessages look = .ok messages) ↔
      ∀ e ∈ c.expectations, e.unmet = true → e.Reportable look := by
  unfold unmetMessages
  rw [exists_mapM_ok_iff]
  simp only [List.mem_filter, and_imp, CallExpectation.report_ok_iff]

/-- Reports fail only over what is too long to be written. -/
theorem eq_of_unmetMessages_error {c : CallLedger} {r : Refusal}
    (h : c.unmetMessages look = .error r) : r = longRefusal none := by
  obtain ⟨e, _, hreport⟩ := exists_of_mapM_error h
  exact eq_of_unmetMessage_error hreport

/-- The reports are of the expectations that are not met. -/
theorem eq_nil_of_unmetMessages {c : CallLedger} {messages : List String}
    (h : c.unmetMessages look = .ok messages) :
    messages = [] ↔ ∀ g ∈ c.groups, ∀ e ∈ g.2, MeetsTimes e.times e.count := by
  rw [← List.length_eq_zero_iff, length_of_mapM h, List.length_eq_zero_iff, List.filter_eq_nil_iff,
    forall_mem_expectations]
  refine forall₂_congr fun g _ => forall₂_congr fun e _ => ?_
  rw [← isUnmet_eq_false, Bool.not_eq_true]
  rfl

variable {truth : Value → Value → Bool}

/-- What a fresh ledger receives are the shares of what happens. -/
theorem Fresh.groups_tallied {c : CallLedger} (h : c.Fresh) (calls : List Call) :
    (c.tallied truth calls).groups = c.groups.map fun g => (g.1, g.2.mapIdx fun i e =>
      { e with received := share (CallExpectation.takes truth) g.2 i (argumentsOf g.1 calls)
        }) := by
  refine List.map_congr_left fun g hg => congrArg (Prod.mk g.1) (List.ext_getElem? fun i => ?_)
  rw [getElem?_tally, List.getElem?_mapIdx]
  cases hi : g.2[i]? with
  | none => rfl
  | some e => simp [CallExpectation.credit, h g hg e (List.mem_of_getElem? hi)]

/-- Nothing is reported of a fresh ledger if all shares are as large as they should be. -/
theorem Fresh.unmetMessages_tallied {c : CallLedger} (h : c.Fresh) (calls : List Call)
    {messages : List String}
    (reported : (c.tallied truth calls).unmetMessages look = .ok messages) :
    messages = [] ↔ ∀ g ∈ c.groups, ∀ i e, g.2[i]? = some e →
      MeetsTimes e.times
        (share (CallExpectation.takes truth) g.2 i (argumentsOf g.1 calls)).length := by
  rw [eq_nil_of_unmetMessages reported, h.groups_tallied, List.forall_mem_map]
  exact forall₂_congr fun g _ => forall_mem_mapIdx

end CallLedger

namespace ActionLedger

variable {truth : Value → Value → Bool} {look : Value → Value}

theorem ofValue_ensures (v : Value) :
    Ensures (ofValue v) fun l => ∀ e ∈ l.expectations, e.received = [] := by
  unfold ofValue
  split
  · exact .pure fun e he => by cases he
  · split
    · exact .bind (.mapM fun item _ => ActionExpectation.ofValue_ensures item) fun es hes =>
        .pure hes
    · exact .error _

/-- A report can be made of what says its type, if that can be a key and all of the report can be
written. -/
theorem unmetReport_ok_iff {l : ActionLedger} {e : ActionExpectation} :
    (∃ report, l.unmetReport look e = .ok report) ↔ l.Reportable look e := by
  unfold unmetReport Reportable
  cases e.actionType with
  | error r => exact ⟨fun ⟨_, h⟩ => (by cases h), fun ⟨_, h, _⟩ => (by cases h)⟩
  | ok t =>
    show (∃ report, (t.checkKey >>= _) = .ok report) ↔ _
    unfold Value.checkKey
    cases ht : t.unhashable? with
    | some name =>
      refine ⟨fun ⟨_, h⟩ => (by cases h), ?_⟩
      rintro ⟨_, ⟨⟩, h, _⟩
      cases ht.symm.trans h
    | none =>
      refine unmetMessage_ok_iff.trans ⟨fun h => ⟨t, rfl, ht, h⟩, ?_⟩
      rintro ⟨_, ⟨⟩, _, h⟩
      exact h

/-- **The reports can be made if one can be made of all that is unmet.** -/
theorem unmetMessages_ok_iff {l : ActionLedger} :
    (∃ messages, l.unmetMessages look = .ok messages) ↔
      ∀ e ∈ l.expectations, e.unmet = true → l.Reportable look e := by
  unfold unmetMessages
  rw [exists_mapM_ok_iff]
  simp only [List.mem_filter, and_imp, unmetReport_ok_iff]

/-- Where types are texts, reports fail only over what is too long to be written. -/
theorem eq_of_unmetMessages_error {l : ActionLedger} (typed : ∀ e ∈ l.expectations, e.Typed)
    {r : Refusal} (h : l.unmetMessages look = .error r) : r = longRefusal none := by
  obtain ⟨e, he, hreport⟩ := exists_of_mapM_error h
  obtain ⟨s, htype⟩ := typed e (List.mem_filter.mp he).1
  unfold unmetReport at hreport
  rw [htype] at hreport
  exact eq_of_unmetMessage_error hreport

/-- The reports are of the expectations that are not met. -/
theorem eq_nil_of_unmetMessages {l : ActionLedger} {messages : List String}
    (h : l.unmetMessages look = .ok messages) :
    messages = [] ↔ ∀ e ∈ l.expectations, MeetsTimes e.times e.count := by
  rw [← List.length_eq_zero_iff, length_of_mapM h, List.length_eq_zero_iff, List.filter_eq_nil_iff]
  refine forall₂_congr fun e _ => ?_
  rw [← isUnmet_eq_false, Bool.not_eq_true]
  rfl

/-- What fresh expectations receive are the shares of what happens. -/
theorem tallied_of_fresh {es : List ActionExpectation} (fresh : ∀ e ∈ es, e.received = [])
    (ds : List Dispatched) : tallied truth es ds = es.mapIdx fun i e =>
      { e with received := (share (ActionExpectation.takes truth) es i ds).map (·.object) } := by
  refine List.ext_getElem? fun i => ?_
  rw [tallied, getElem?_tally, List.getElem?_mapIdx]
  cases hi : es[i]? with
  | none => rfl
  | some e => simp [ActionExpectation.credit, fresh e (List.mem_of_getElem? hi)]

/-- Nothing is reported of fresh expectations if all shares are as large as they should be. -/
theorem unmetMessages_tallied {es : List ActionExpectation} (fresh : ∀ e ∈ es, e.received = [])
    {ds : List Dispatched} {l : ActionLedger} (h : l.expectations = tallied truth es ds)
    {messages : List String} (reported : l.unmetMessages look = .ok messages) :
    messages = [] ↔ ∀ i e, es[i]? = some e →
      MeetsTimes e.times (share (ActionExpectation.takes truth) es i ds).length := by
  rw [tallied_of_fresh fresh] at h
  rw [eq_nil_of_unmetMessages reported, h, forall_mem_mapIdx]
  simp only [ActionExpectation.count, List.length_map]

end ActionLedger

end Rehearsal
