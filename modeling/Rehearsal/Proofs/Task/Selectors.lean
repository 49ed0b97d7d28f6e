import Rehearsal.Options
import Rehearsal.Proofs.Expect.Unmet

/-!
# Which tasks are traced

What is given for a kind of trace is read twice. The options take it for unset where it equals the
absent value or the negative one; the tracer looks for a task whose id or name it is. Of what the
options take for unset the number zero alone means tasks: it equals the negative value, and is the
id of a task.
-/
namespace Rehearsal

/-- The kinds of blocks in a trace. -/
inductive TraceBlock where
  | unblocking
  | bubbling
  | interrupt

namespace TraceBlock

def option : TraceBlock → String
  | unblocking => "unblock"
  | bubbling => "bubble"
  | interrupt => "interrupt"

def selector (d : DebugOptions) : TraceBlock → Selector
  | unblocking => d.unblock
  | bubbling => d.bubble
  | interrupt => d.interrupt

/-- What is given for it in the value that the options are made of. -/
def given (v : Value) (b : TraceBlock) : Value :=
  match v with
  | .dict m => (m.getText? b.option).getD .null
  | _ => .null

end TraceBlock

namespace Selector

variable {s : Selector} {v : Value} {k : TaskKey}

/-- Three selectors do not count as set. -/
theorem isSet_eq_false_iff : s.isSet = false ↔ s = .unset ∨ s = .every false ∨
    s = .one (.id 0) := by
  constructor
  · intro h
    unfold isSet at h
    split at h
    · exact .inl rfl
    · exact .inr (.inl rfl)
    · exact .inr (.inr rfl)
    · cases h
  · rintro (rfl | rfl | rfl) <;> rfl

/-- **A selector that does not count as set means the task of id 0, or none.** -/
theorem applies_iff_of_not_isSet (h : s.isSet = false) (tasks : List Task) :
    s.applies tasks = true ↔ s = .one (.id 0) ∧ ∃ t ∈ tasks, t.id = 0 := by
  rcases isSet_eq_false_iff.mp h with rfl | rfl | rfl
  · simp [applies]
  · simp [applies]
  · have hmeets : ∀ t : Task, meets (.id 0) t = true ↔ t.id = 0 := by
      intro t
      simp only [meets, beq_iff_eq, Int.ofNat_eq_natCast]
      omega
    simp only [applies, List.any_eq_true, hmeets, true_and]

/-! ### Selectors as they are given -/

theorem keyValue_of_key? (h : key? v = some k) : keyValue k = v := by
  cases v <;> cases h <;> rfl

theorem map_keyValue_of_mapM {vs : List Value} {ks : List TaskKey} (h : vs.mapM key? = some ks) :
    ks.map keyValue = vs := by
  induction vs generalizing ks with
  | nil =>
    cases h
    rfl
  | cons v vs ih =>
    rw [List.mapM_cons] at h
    obtain ⟨k, hk, h⟩ := Option.bind_eq_some_iff.mp h
    obtain ⟨rest, hrest, h⟩ := Option.bind_eq_some_iff.mp h
    cases h
    rw [List.map_cons, keyValue_of_key? hk, ih hrest]

/-- What passes the check is kept as it is given. -/
theorem toValue_of_ofValue? (h : ofValue? v = some s) : s.toValue = v := by
  unfold ofValue? at h
  split at h
  · cases h
    rfl
  · cases h
    rfl
  · obtain ⟨ks, hks, rfl⟩ := Option.map_eq_some_iff.mp h
    exact congrArg Value.list (map_keyValue_of_mapM hks)
  · obtain ⟨ks, hks, rfl⟩ := Option.map_eq_some_iff.mp h
    exact congrArg Value.tuple (map_keyValue_of_mapM hks)
  · obtain ⟨k, hk, rfl⟩ := Option.map_eq_some_iff.mp h
    exact keyValue_of_key? hk

/-- An id or a name means the same tasks unchecked. -/
theorem namesOneOf_keyValue (k : TaskKey) (tasks : List Task) :
    (keyValue k).namesOneOf tasks = .ok (tasks.any (meets k)) := by
  cases k with
  | id n =>
    have hmeets :
        ∀ t : Task, ((Value.int n).same (.int t.id) || (Value.int n).same (.text t.name)) =
        meets (.id n) t := by
      intro t
      simp [Value.same, Number.ofValue?, Number.eq, meets]
    exact congrArg (Except.ok <| tasks.any ·) (funext hmeets)
  | name s =>
    have hmeets :
        ∀ t : Task, ((Value.text s).same (.int t.id) || (Value.text s).same (.text t.name)) =
        meets (.name s) t := by
      intro t
      simp [Value.same, meets]
    exact congrArg (Except.ok <| tasks.any ·) (funext hmeets)

theorem anyM_namesOneOf (ks : List TaskKey) (tasks : List Task) :
    (ks.map keyValue).anyM (·.namesOneOf tasks) =
      (.ok (ks.any fun k => tasks.any (meets k)) : Except Refusal Bool) := by
  induction ks with
  | nil => rfl
  | cons k ks ih =>
    rw [List.map_cons, List.anyM, namesOneOf_keyValue, ih, List.any_cons]
    cases tasks.any (meets k) <;> rfl

/-- **A selector means the same tasks unchecked.** -/
theorem selects_toValue (s : Selector) (tasks : List Task) :
    s.toValue.selects tasks = .ok (s.applies tasks) := by
  cases s with
  | unset => rfl
  | every b => cases b <;> rfl
  | one k =>
    have h := namesOneOf_keyValue k tasks
    cases k <;> exact h
  | several asTuple ks =>
    have h := anyM_namesOneOf ks tasks
    cases asTuple <;> exact h

/-- **A selector counts as set unless it equals the absent value or the negative one.** -/
theorem isSet_eq (s : Selector) :
    s.isSet = !(s.toValue.same .null || s.toValue.same (.bool false)) := by
  cases s with
  | unset => simp [isSet, toValue, Value.same]
  | every b => cases b <;> simp [isSet, toValue, Value.same, Number.ofValue?, Number.eq]
  | one k =>
    cases k with
    | id n =>
      by_cases hn : n = 0
      · subst hn
        simp [isSet, toValue, keyValue, Value.same, Number.ofValue?, Number.eq]
      · simp [isSet, toValue, keyValue, Value.same, Number.ofValue?, Number.eq, hn]
    | name s => simp [isSet, toValue, keyValue, Value.same]
  | several asTuple ks => cases asTuple <;> simp [isSet, toValue, Value.same]

theorem toValue_eq_zero_iff : s.toValue = .int 0 ↔ s = .one (.id 0) := by
  cases s with
  | one k => cases k <;> simp [toValue, keyValue]
  | several asTuple ks => cases asTuple <;> simp [toValue]
  | _ => simp [toValue]

end Selector

namespace DebugOptions

theorem selector_ensures (m : Mapping) (name : String) :
    Ensures (selector m name) fun s => s.toValue = (m.getText? name).getD .null := by
  unfold selector
  split
  · rename_i hnone
    rw [hnone]
    exact .pure rfl
  · rename_i v hv
    rw [hv]
    split
    · rename_i s hs
      exact .pure (Selector.toValue_of_ofValue? hs)
    · exact .error _

/-- Options keep what is given for each kind of block. -/
theorem ofValue_ensures (v : Value) :
    Ensures (ofValue v) fun d => ∀ b : TraceBlock, (b.selector d).toValue = b.given v := by
  unfold ofValue
  split
  · refine .pure fun b => ?_
    cases b <;> rfl
  · rename_i m
    refine .bind (.any _) fun unknown _ => ?_
    split
    · exact .bind (.error _) fun _ (h : False) => h.elim
    · refine .bind (selector_ensures m "unblock") fun unblock hunblock =>
        .bind (selector_ensures m "bubble") fun bubble hbubble =>
        .bind (selector_ensures m "interrupt") fun interrupt hinterrupt => .pure fun b => ?_
      cases b with
      | unblocking => exact hunblock
      | bubbling => exact hbubble
      | interrupt => exact hinterrupt
  · exact .error _

theorem isSet_of_disabled {d : DebugOptions} (h : d.enabled = false) (b : TraceBlock) :
    (b.selector d).isSet = false := by
  simp only [enabled, Bool.or_eq_false_iff] at h
  cases b with
  | unblocking => exact h.1.1
  | bubbling => exact h.1.2
  | interrupt => exact h.2

theorem applies_iff_of_disabled {d : DebugOptions} (h : d.enabled = false)
    (b : TraceBlock) (tasks : List Task) :
    (b.selector d).applies tasks = true ↔ b.selector d = .one (.id 0) ∧ ∃ t ∈ tasks, t.id = 0 :=
  Selector.applies_iff_of_not_isSet (isSet_of_disabled h b) tasks

section Accepted

variable {v : Value} {d : DebugOptions} (accepted : ofValue v = .ok d)
include accepted

theorem given_eq_zero_iff (b : TraceBlock) : b.given v = .int 0 ↔ b.selector d = .one (.id 0) := by
  rw [← ofValue_ensures v d accepted b, Selector.toValue_eq_zero_iff]

theorem selects_given (b : TraceBlock) (tasks : List Task) :
    (b.given v).selects tasks = .ok ((b.selector d).applies tasks) := by
  rw [← ofValue_ensures v d accepted b, Selector.selects_toValue]

variable (disabled : d.enabled = false)
include disabled

/-- Of what is given to disabled options only zero means tasks: those of id 0. -/
theorem exists_selects_given (b : TraceBlock) (tasks : List Task) :
    ∃ meant, (b.given v).selects tasks = .ok meant ∧
      (meant = true ↔ b.given v = .int 0 ∧ ∃ t ∈ tasks, t.id = 0) := by
  refine ⟨_, selects_given accepted b tasks, ?_⟩
  rw [applies_iff_of_disabled disabled, given_eq_zero_iff accepted]

theorem selects_nobody_iff :
    (∀ (b : TraceBlock) tasks, (b.given v).selects tasks = .ok false) ↔
    ∀ b : TraceBlock, b.given v ≠ .int 0 := by
  constructor
  · intro hnobody b hzero
    obtain ⟨meant, hselects, hmeant⟩ :=
      exists_selects_given accepted disabled b [.fresh 0 "" .now none false none none]
    rw [hmeant.mpr ⟨hzero, _, List.mem_singleton_self _, rfl⟩, hnobody] at hselects
    cases hselects
  · intro hnone b tasks
    obtain ⟨meant, hselects, hmeant⟩ := exists_selects_given accepted disabled b tasks
    rw [hselects, Bool.eq_false_iff.mpr fun h => hnone b (hmeant.mp h).1]

end Accepted

end DebugOptions

end Rehearsal
