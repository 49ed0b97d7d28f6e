import Rehearsal.Effect.Check
import Rehearsal.Proofs.Expect.Tally

/-!
# What patterns match

An action is matched against a pattern by asking the predicates of the pattern, one after another
and only until one of them holds. What comes of it depends on nothing but what they say: whether
they hold, or raise an exception. A list of patterns is meant to match what one of its entries
matches. It does, except that the wildcard among its entries is nothing but the name of a type.
-/
namespace Rehearsal

open Script

/-! ### Computations that may raise -/

/-- Whatever the memory, the computation yields what `outcome` says; it raises an exception if that
is nothing. -/
def Script.Eval.Tells {α : Type} (x : Eval α) (outcome : Option α) : Prop :=
  match outcome with
  | some a => x.Gives a
  | none => ∀ mem, ∃ e, (x.run mem).1 = .error e

namespace Script.Eval.Tells

variable {α β : Type}

theorem pure (a : α) : Tells (Pure.pure a) (some a) := Gives.pure a

theorem bind {x : Eval α} {o : Option α} {f : α → Eval β} {g : α → Option β} (hx : x.Tells o)
    (hf : ∀ a, o = some a → (f a).Tells (g a)) : Tells (x >>= f) (o >>= g) := by
  cases o with
  | none =>
    intro mem
    obtain ⟨e, hraised⟩ := hx mem
    rw [run_bind]
    generalize x.run mem = went at hraised
    obtain ⟨r, mem'⟩ := went
    obtain rfl : r = .error e := hraised
    exact ⟨e, rfl⟩
  | some a =>
    have hrun : ∀ mem, ∃ mem', (x >>= f).run mem = (f a).run mem' := by
      intro mem
      have hvalue := hx mem
      rw [run_bind]
      generalize x.run mem = went at hvalue
      obtain ⟨r, mem'⟩ := went
      obtain rfl : r = .ok a := hvalue
      exact ⟨mem', rfl⟩
    have hrest := hf a rfl
    show Tells _ (g a)
    cases hb : g a with
    | some b =>
      rw [hb] at hrest
      intro mem
      obtain ⟨mem', h⟩ := hrun mem
      rw [h]
      exact hrest mem'
    | none =>
      rw [hb] at hrest
      intro mem
      obtain ⟨mem', h⟩ := hrun mem
      rw [h]
      exact hrest mem'

def echo : Echo Eval Option where
  Rel := Tells
  pure := pure
  bind hx hf := hx.bind fun a _ => hf a

end Script.Eval.Tells

/-! ### Matching an action -/

/-- The type of an action. -/
def Mapping.type (a : Mapping) : Value := (a.getText? "type").getD .null

/-- How the type of an action reads. -/
def Mapping.kind (a : Mapping) : String := a.type.plain

namespace Value

theorem eq_text_iff {v : Value} {s : String} : v.eq (.text s) = true ↔ v = .text s := by
  constructor
  · intro h
    cases v with
    | nan => cases h
    | _ => exact eq_of_same_text h
  · rintro rfl
    simp [eq, same]

end Value

section Equations

variable {m : Type → Type} [Monad m] {holds : Value → Value → m Bool} {pattern : Value}

theorem actionMatches_wildcard (action : Value) :
    actionMatches holds action (.text wildcard) = pure (.ok !action.isNull) :=
  if_pos (Value.eq_text_iff.mpr rfl)

theorem actionMatches_callable (h : pattern.isCallable = true) (action : Value) :
    actionMatches holds action pattern = do return .ok (← holds pattern action) := by
  have hne : ¬pattern.eq (.text wildcard) = true := by
    rw [Value.eq_text_iff]
    rintro rfl
    cases h
  unfold actionMatches
  rw [if_neg hne, if_pos h]

/-- The type of an action is written out before it is compared. -/
theorem actionMatches_entries (hne : ¬pattern.eq (.text wildcard) = true)
    (hcall : ¬pattern.isCallable = true) (a : Mapping) :
    actionMatches holds (.dict a) pattern = if a.type.hasLong then pure (.error (longRefusal none))
      else do return .ok (← (pattern.items?.getD [pattern]).anyM
        (entryMatches holds a.kind (.dict a))) := by
  unfold actionMatches
  rw [if_neg hne, if_neg hcall]
  have written : a.type.checkLong = if a.type.hasLong then .error (longRefusal none) else .ok () :=
    rfl
  unfold Mapping.type at written ⊢
  cases hlong : ((a.getText? "type").getD .null).hasLong with
  | true => simp only [written, hlong, if_true]
  | false => simp only [written, hlong, Bool.false_eq_true, if_false]; rfl

theorem actionMatches_items {entries : List Value}
    (h : pattern.items? = some entries) (a : Mapping) :
    actionMatches holds (.dict a) pattern = if a.type.hasLong then pure (.error (longRefusal none))
      else do return .ok (← entries.anyM (entryMatches holds a.kind (.dict a))) := by
  have hne : ¬pattern.eq (.text wildcard) = true := by
    rw [Value.eq_text_iff]
    rintro rfl
    cases h
  have hcall : ¬pattern.isCallable = true := by
    cases pattern with
    | list items | tuple items => exact Bool.false_ne_true
    | _ => cases h
  rw [actionMatches_entries hne hcall, h]
  rfl

variable [LawfulMonad m]

theorem actionMatches_text {a : Mapping} (short : a.type.hasLong = false) (s : String) :
    actionMatches holds (.dict a) (.text s) = pure (.ok (s == wildcard || s == a.kind)) := by
  by_cases hs : s = wildcard
  · rw [hs, actionMatches_wildcard]
    rfl
  · have hne : ¬(Value.text s).eq (.text wildcard) = true := by simpa [Value.eq_text_iff] using hs
    have hentry : entryMatches holds a.kind (.dict a) (.text s) = pure (s == a.kind) := rfl
    rw [actionMatches_entries hne Bool.false_ne_true, short, if_neg Bool.false_ne_true]
    change (List.anyM (entryMatches holds a.kind (.dict a)) [.text s] >>=
      fun matched => pure (Except.ok matched)) = _
    rw [List.anyM_cons, List.anyM_nil, hentry, pure_bind, beq_eq_false_iff_ne.mpr hs, Bool.false_or]
    cases s == a.kind <;> simp

end Equations

/-- **Matching an action depends on what the predicates say of it**, and on nothing else. -/
theorem actionMatches_tells {holds : Value → Value → Eval Bool}
    {verdict : Value → Value → Option Bool}
    {action pattern : Value}
    (told : ∀ f ∈ pattern.predicates, (holds f action).Tells (verdict f action)) :
    (actionMatches holds action pattern).Tells (actionMatches verdict action pattern) :=
  Eval.Tells.echo.actionMatches told

/-! ### Lists of patterns -/

/-- What holding the action against the pattern comes to, where predicates hold as `truth` says. -/
def judged (truth : Value → Value → Bool) (action pattern : Value) : Except Refusal Bool :=
  (actionMatches (telling truth) action pattern).run

/-- Whether the action matches the pattern, where predicates hold as `truth` says. -/
def isMatched (truth : Value → Value → Bool) (action pattern : Value) : Bool :=
  match judged truth action pattern with
  | .ok matched => matched
  | .error _ => false

theorem isMatched_iff {truth : Value → Value → Bool} {action pattern : Value} :
    isMatched truth action pattern = true ↔ judged truth action pattern = .ok true := by
  unfold isMatched
  cases judged truth action pattern with
  | error => simp
  | ok matched => simp

section Lists

variable {truth : Value → Value → Bool} {pattern : Value} {entries : List Value} {a : Mapping}

/-- Predicates that never raise leave it at whether they hold. -/
theorem actionMatches_some (truth : Value → Value → Bool) (action pattern : Value) :
    actionMatches (fun f v => some (truth f v)) action pattern =
      some (judged truth action pattern) := by
  unfold judged actionMatches
  split
  · rfl
  · split
    · rfl
    · split
      · rename_i a
        have hentries : ∀ entry, entryMatches (fun f v => some (truth f v)) a.kind (.dict a) entry =
            pure (entryMatches (telling truth) a.kind (.dict a) entry).run := by
          rintro (_ | _) <;> rfl
        dsimp only
        split
        · rfl
        · change
            (List.anyM (entryMatches (fun f v => some (truth f v)) a.kind (.dict a)) _).bind _ = _
          rw [funext hentries, List.anyM_pure]
          exact congrArg (fun matched : Bool => some (Except.ok matched : Except Refusal Bool))
            (congrArg Id.run (List.anyM_pure (m := Id)).symm)
      · rfl

theorem forM_ok {ε α : Type} {f : α → Except ε Unit} {xs : List α} (h : xs.forM f = .ok ()) :
    ∀ x ∈ xs, f x = .ok () := by
  induction xs with
  | nil => exact fun x hx => (List.not_mem_nil hx).elim
  | cons x xs ih =>
    change (f x >>= fun _ => xs.forM f) = _ at h
    cases hx : f x with
    | error => rw [hx] at h; cases h
    | ok =>
      rw [hx] at h
      exact List.forall_mem_cons.mpr ⟨hx, ih h⟩

/-- The entries of a pattern that is accepted are types and predicates. -/
theorem entry_of_accepted {name : String} (accepted : Check.pattern name pattern = .ok ())
    (listed : pattern.items? = some entries) {p : Value} (hp : p ∈ entries) :
    p.isText = true ∨ p.isCallable = true := by
  unfold Check.pattern at accepted
  rw [listed] at accepted
  have hentry := forM_ok accepted p hp
  split at hentry
  · exact .inl rfl
  · refine .inr ?_
    split at hentry
    · assumption
    · cases hentry

/-- What an entry asks the whole pattern asks. -/
theorem predicates_of_entry {p : Value} (hentry : p.isText = true ∨ p.isCallable = true)
    (listed : pattern.items? = some entries) (hp : p ∈ entries) :
    ∀ f ∈ p.predicates, f ∈ pattern.predicates := by
  have hpattern : pattern.predicates = entries.filter (!·.isText) := by
    cases pattern with
    | list items | tuple items => cases listed; rfl
    | _ => cases listed
  intro f hf
  rw [hpattern]
  rcases hentry with htext | hcall
  · cases p with
    | text s => cases hf
    | _ => cases htext
  · rw [Value.predicates, if_pos hcall] at hf
    rw [List.mem_singleton.mp hf]
    refine List.mem_filter.mpr ⟨hp, ?_⟩
    cases p with
    | text s => cases hcall
    | _ => rfl

/-- Among the entries of a list the wildcard is the name of a type. -/
theorem entryMatches_iff (short : a.type.hasLong = false) {p : Value}
    (hp : p.isText = true ∨ p.isCallable = true) :
    (entryMatches (telling truth) a.kind (.dict a) p).run = true ↔
      isMatched truth (.dict a) p = true ∧ (p = .text wildcard → a.kind = wildcard) := by
  unfold isMatched judged
  rcases hp with htext | hcall
  · obtain ⟨s, rfl⟩ : ∃ s, p = .text s := by
      cases p with
      | text s => exact ⟨s, rfl⟩
      | _ => cases htext
    rw [actionMatches_text short]
    show (s == a.kind) = true ↔ (s == wildcard || s == a.kind) = true ∧ _
    simp only [Bool.or_eq_true, beq_iff_eq, Value.text.injEq]
    constructor
    · rintro rfl
      exact ⟨.inr rfl, id⟩
    · rintro ⟨hs | hs, hkind⟩
      · exact hs.trans (hkind hs).symm
      · exact hs
  · rw [actionMatches_callable hcall]
    have hentry : entryMatches (telling truth) a.kind (.dict a) p = telling truth p (.dict a) := by
      cases p with
      | text s => cases hcall
      | _ => rfl
    have hne : p ≠ .text wildcard := by
      rintro rfl
      cases hcall
    rw [hentry]
    exact (and_iff_left fun h => (hne h).elim).symm

end Lists

/-- **A list of patterns matches what one of its entries matches, the wildcard apart.** An entry
that is the wildcard matches on its own whatever the action is, but within a list only an action
whose type reads the same. So the list is the disjunction of its entries exactly if it has no such
entry, or matches the action anyway. A list is not held against an action whose type is too long to
be written. -/
theorem list_pattern_matches_iff {name : String} {pattern : Value} {entries : List Value}
    (accepted : Check.pattern name pattern = .ok ()) (listed : pattern.items? = some entries)
    {holds : Value → Value → Eval Bool} {truth : Value → Value → Bool}
    (told : ∀ f ∈ pattern.predicates, ∀ v, (holds f v).Gives (truth f v)) (a : Mapping) :
    (∀ p ∈ pattern :: entries, (actionMatches holds (.dict a) p).Gives (judged truth (.dict a) p)) ∧
    if a.type.hasLong then judged truth (.dict a) pattern = .error (longRefusal none)
    else (isMatched truth (.dict a) pattern = true ↔
        ∃ p ∈ entries, isMatched truth (.dict a) p = true ∧
        (p = .text wildcard → a.kind = wildcard)) ∧
      ((isMatched truth (.dict a) pattern = true ↔
          ∃ p ∈ entries, isMatched truth (.dict a) p = true) ↔
        (.text wildcard ∈ entries → isMatched truth (.dict a) pattern = true)) := by
  constructor
  · intro p hp
    have hasked : ∀ f ∈ p.predicates, f ∈ pattern.predicates := by
      rcases List.mem_cons.mp hp with rfl | hentry
      · exact fun f hf => hf
      · exact predicates_of_entry (entry_of_accepted accepted listed hentry) listed hentry
    have htells : (actionMatches holds (.dict a) p).Tells
        (actionMatches (fun f v => some (truth f v)) (.dict a) p) :=
      actionMatches_tells fun f hf => told f (hasked f hf) (.dict a)
    rwa [actionMatches_some] at htells
  have hjudged : judged truth (.dict a) pattern = if a.type.hasLong then .error (longRefusal none)
      else .ok (entries.any fun p => (entryMatches (telling truth) a.kind (.dict a) p).run) := by
    unfold judged
    rw [actionMatches_items listed]
    split
    · rfl
    · exact congrArg Except.ok (congrArg Id.run (List.anyM_pure (m := Id)))
  cases hlong : a.type.hasLong with
  | true =>
    rw [if_pos rfl, hjudged, hlong]
    rfl
  | false =>
  rw [if_neg Bool.false_ne_true]
  have hlist : isMatched truth (.dict a) pattern = true ↔
      ∃ p ∈ entries, isMatched truth (.dict a) p = true ∧
      (p = .text wildcard → a.kind = wildcard) := by
    have hany : isMatched truth (.dict a) pattern =
        entries.any fun p => (entryMatches (telling truth) a.kind (.dict a) p).run := by
      unfold isMatched
      rw [hjudged, hlong]
      rfl
    rw [hany, List.any_eq_true]
    exact exists_congr fun p => and_congr_right fun hp =>
      entryMatches_iff hlong (entry_of_accepted accepted listed hp)
  refine ⟨hlist, fun hdisjunction hwild => ?_, fun hwild => ?_⟩
  · refine hdisjunction.mpr ⟨_, hwild, ?_⟩
    unfold isMatched judged
    rw [actionMatches_wildcard]
    rfl
  · refine ⟨fun h => (hlist.mp h).imp fun p hp => ⟨hp.1, hp.2.1⟩, ?_⟩
    rintro ⟨p, hp, hmatched⟩
    by_cases hne : p = .text wildcard
    · exact hwild (hne ▸ hp)
    · exact hlist.mpr ⟨p, hp, hmatched, fun h => (hne h).elim⟩

/-- Two patterns, one of them the wildcard, and a predicate that accepts whatever it is asked about.
-/
def patternEntries :
    List Value := [.text wildcard, .text "B", .predicate ⟨"accepting", .plain⟩ (.constant 0)]

/-- A script with that predicate. -/
def acceptingScript : Program := ⟨[⟨⟨"accepting", .plain⟩, ["v"], [.ret (.const (.bool true))]⟩]⟩

/-- The predicate makes up for the wildcard. -/
theorem list_with_predicate_matches :
    (actionMatches (Script.accepts acceptingScript .idle)
      (.dict ⟨false, [(.text "type", .text "A")]⟩)
      (.list patternEntries)).Gives (.ok true) := by
  have told : ∀ f ∈ (Value.list patternEntries).predicates, ∀ v,
      (Script.accepts acceptingScript .idle f v).Gives true := by
    intro f hf v
    rw [List.mem_singleton.mp hf]
    exact fun mem => rfl
  obtain ⟨hgives, hshort⟩ := @list_pattern_matches_iff "pattern" _ patternEntries rfl rfl _
    (fun _ _ => true) told ⟨false, [(.text "type", .text "A")]⟩
  have hkind : (⟨false, [(.text "type", .text "A")]⟩ : Mapping).type.hasLong = false := by
    with_unfolding_all rfl
  rw [hkind, if_neg Bool.false_ne_true] at hshort
  obtain ⟨hmatched, -⟩ := hshort
  have haccepted : isMatched (fun _ _ => true) (.dict ⟨false, [(.text "type", .text "A")]⟩)
      (.predicate ⟨"accepting", .plain⟩ (.constant 0)) = true := by
    unfold isMatched judged
    rw [actionMatches_callable rfl]
    rfl
  have hlist :=
    hmatched.mpr ⟨_, List.mem_cons_of_mem _ (List.mem_cons_of_mem _ (List.mem_singleton_self _)),
    haccepted, fun h => by cases h⟩
  have hrun := hgives _ (List.mem_cons_self ..)
  rwa [isMatched_iff.mp hlist] at hrun

/-- The wildcard matches any action, a list of nothing but the wildcard does not. -/
theorem wildcard_within_list_not_matched :
    Check.pattern "pattern" (.list [.text wildcard]) = .ok () ∧
    (actionMatches (Script.accepts ⟨[]⟩ .idle) (.dict ⟨false, [(.text "type", .text "A")]⟩)
      (.list [.text wildcard])).Gives (.ok false) ∧
    (actionMatches (Script.accepts ⟨[]⟩ .idle) (.dict ⟨false, [(.text "type", .text "A")]⟩)
      (.text wildcard)).Gives (.ok true) := by
  refine ⟨rfl, fun _ => by with_unfolding_all rfl, ?_⟩
  rw [actionMatches_wildcard]
  exact .pure _

end Rehearsal
