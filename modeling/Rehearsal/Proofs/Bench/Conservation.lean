import Rehearsal.Proofs.Bench.Verdict
import Rehearsal.Proofs.Expect.Patterns

/-!
# The queue of actions is conserved

All tasks of a run take from one queue, in any order and by any patterns. Every action is handed out
at most once, and what has not been handed out is still there, in its place: the queue at the
beginning is at all times a merge of what is left of it and of what has been handed out. Watchers
search the queue just as takes do, but leave it as it is.
-/
namespace Rehearsal

open Script

/-! ### Merges -/

/-- The third list is made of the other two, each in its order. -/
inductive Merges {α : Type} : List α → List α → List α → Prop
  | nil : Merges [] [] []
  | left {xs ys zs : List α} (x : α) (h : Merges xs ys zs) : Merges (x :: xs) ys (x :: zs)
  | right {xs ys zs : List α} (y : α) (h : Merges xs ys zs) : Merges xs (y :: ys) (y :: zs)

namespace Merges

variable {α : Type} {xs ys zs : List α}

theorem refl (xs : List α) : Merges xs [] xs := by
  induction xs with
  | nil => exact .nil
  | cons x xs ih => exact ih.left x

theorem middle (passed : List α) (a : α) (rest : List α) :
    Merges (passed ++ rest) [a] (passed ++ a :: rest) := by
  induction passed with
  | nil => exact (refl rest).right a
  | cons b passed ih => exact ih.left b

theorem left_sublist (h : Merges xs ys zs) : xs.Sublist zs := by
  induction h with
  | nil => exact .slnil
  | left x _ ih => exact ih.cons_cons x
  | right y _ ih => exact ih.cons y

/-- What is taken from the rest of a list is taken from the list. -/
theorem trans {us vs : List α} (h : Merges xs ys zs) (h' : Merges us vs xs) :
    ∃ ws, ws.Perm (ys ++ vs) ∧ Merges us ws zs := by
  induction h generalizing us vs with
  | nil =>
    cases h'
    exact ⟨[], .refl _, .nil⟩
  | left x h ih =>
    cases h' with
    | left _ h' =>
      obtain ⟨ws, hperm, hmerges⟩ := ih h'
      exact ⟨ws, hperm, hmerges.left x⟩
    | right _ h' =>
      obtain ⟨ws, hperm, hmerges⟩ := ih h'
      exact ⟨x :: ws, (hperm.cons x).trans List.perm_middle.symm, hmerges.right x⟩
  | right y h ih =>
    obtain ⟨ws, hperm, hmerges⟩ := ih h'
    exact ⟨y :: ws, hperm.cons y, hmerges.right y⟩

end Merges

/-! ### Searching the queue -/

namespace Queue

/-- From the one queue to the other the actions `handed` have been handed out, and nothing else has
changed. Patterns may take a later action before an earlier one; `taken` are those handed out as
they stood in the queue. -/
def Hands (queue handed queue' : List Value) : Prop :=
  ∃ taken : List Value, taken.Perm handed ∧ Merges queue' taken queue

namespace Hands

variable {queue queue' queue'' handed handed' : List Value}

theorem refl (queue : List Value) : Hands queue [] queue := ⟨[], .refl _, .refl _⟩

theorem trans (h : Hands queue handed queue') (h' : Hands queue' handed' queue'') :
    Hands queue (handed ++ handed') queue'' := by
  obtain ⟨taken, hperm, hmerges⟩ := h
  obtain ⟨taken', hperm', hmerges'⟩ := h'
  obtain ⟨all, hall, hmerged⟩ := hmerges.trans hmerges'
  exact ⟨all, hall.trans (hperm.append hperm'), hmerged⟩

theorem sublist (h : Hands queue handed queue') : queue'.Sublist queue := by
  obtain ⟨taken, -, hmerges⟩ := h
  exact hmerges.left_sublist

end Hands

/-- An action is taken out of the place where it stands. -/
theorem take?_yields (holds : Value → Value → Eval Bool) (pattern : Value) (queue : List Value) :
    (take? holds pattern queue).Yields fun found => ∀ a queue', found = .ok (some (a, queue')) →
      ∃ passed rest, queue = passed ++ a :: rest ∧ queue' = passed ++ rest := by
  induction queue with
  | nil => exact .pure fun a queue' hsome => by cases hsome
  | cons b queue ih =>
    rw [take?]
    refine .bind _ fun matched => ?_
    cases matched with
    | error r => exact .pure fun a queue' hsome => by cases hsome
    | ok matched =>
      cases matched with
      | true =>
        refine .pure fun a queue' hsome => ?_
        cases hsome
        exact ⟨[], queue, rfl, rfl⟩
      | false =>
        refine .bind_of ih fun found hfound => .pure ?_
        intro a queue' hsome
        cases found with
        | error r => cases hsome
        | ok found =>
          obtain ⟨⟨a, queue'⟩, rfl, ⟨⟩⟩ := Option.map_eq_some_iff.mp (Except.ok.inj hsome)
          obtain ⟨passed, rest, rfl, rfl⟩ := hfound _ _ rfl
          exact ⟨b :: passed, rest, rfl, rfl⟩

variable {verdict : Value → Value → Option Bool} {pattern : Value}

/-- None of the actions matches, and it can be told of all of them. -/
def Passes (verdict : Value → Value → Option Bool) (pattern : Value) (passed : List Value) : Prop :=
  ∀ b ∈ passed, actionMatches verdict b pattern = some (.ok false)

/-- It cannot be told whether the action matches: a predicate raises, or the type of the action
cannot be written. -/
def Balks (verdict : Value → Value → Option Bool) (pattern b : Value) : Prop :=
  ∀ matched, actionMatches verdict b pattern ≠ some (.ok matched)

/-- A search ends at the first action that matches, at one of which that cannot be told, or finds
nothing. -/
theorem take?_cases (verdict : Value → Value → Option Bool) (pattern : Value) (queue : List Value) :
    (∃ passed a rest, queue = passed ++ a :: rest ∧ Passes verdict pattern passed ∧
      actionMatches verdict a pattern = some (.ok true) ∧
      take? verdict pattern queue = some (.ok (some (a, passed ++ rest)))) ∨
    (∃ passed b rest, queue = passed ++ b :: rest ∧ Passes verdict pattern passed ∧
      Balks verdict pattern b ∧
      (take? verdict pattern queue = none ∨ ∃ r, take? verdict pattern queue = some (.error r))) ∨
    (Passes verdict pattern queue ∧ take? verdict pattern queue = some (.ok none)) := by
  induction queue with
  | nil => exact .inr (.inr ⟨nofun, rfl⟩)
  | cons b queue ih =>
    rw [take?]
    rcases hmatched : actionMatches verdict b pattern with _ | r | _ | _
    · refine .inr (.inl ⟨[], b, queue, rfl, nofun, fun _ h => ?_, .inl rfl⟩)
      cases hmatched.symm.trans h
    · refine .inr (.inl ⟨[], b, queue, rfl, nofun, fun _ h => ?_, .inr ⟨r, rfl⟩⟩)
      cases hmatched.symm.trans h
    · have hpasses : ∀ {passed}, Passes verdict pattern passed →
        Passes verdict pattern (b :: passed) :=
        fun h => List.forall_mem_cons.mpr ⟨hmatched, h⟩
      obtain ⟨passed, a, rest, rfl, hpassed, hfound, h⟩ | ⟨passed, a, rest,
        rfl, hpassed, hbalks, h⟩ |
        ⟨hpassed, h⟩ := ih
      · exact .inl ⟨b :: passed, a, rest, rfl, hpasses hpassed, hfound, by rw [h]; rfl⟩
      · refine .inr (.inl ⟨b :: passed, a, rest, rfl, hpasses hpassed, hbalks, ?_⟩)
        rcases h with h | ⟨r, h⟩
        · exact .inl (by rw [h]; rfl)
        · exact .inr ⟨r, by rw [h]; rfl⟩
      · exact .inr (.inr ⟨hpasses hpassed, by rw [h]; rfl⟩)
    · exact .inl ⟨[], b, queue, rfl, nofun, hmatched, rfl⟩

end Queue

/-! ### Handling takes and watchers -/

namespace Handling

variable {setup : Setup} {view : View} {context : Context} {pattern : Value}

def missed (context : Context) (pattern : Value) : Except Failure Reaction :=
  if context.inComposite then .ok (.defer .null .last (some "take"))
  else .error (Queue.unmatched pattern context.step)

/-- What becomes of a take is what its search finds. -/
theorem serve_run (s : Bench) : (serve setup view context pattern).run s =
    match (Queue.take? (Script.accepts setup.program view) pattern s.queue).run s.memory with
    | (.ok (.ok (some (a, queue))), memory) => (.ok (.advance a), { s with memory, queue })
    | (.ok (.ok none), memory) => (missed context pattern, { s with memory })
    | (.ok (.error r), memory) => (.error r.failure, { s with memory })
    | (.error e, memory) => (.error (.exn e), { s with memory }) := by
  unfold serve missed
  rw [Act.Candid.run_bind, Act.run_get]
  dsimp only
  rw [Act.Candid.run_bind, Act.run_ofScript]
  generalize (Queue.take? (Script.accepts setup.program view) pattern s.queue).run s.memory =
    searched
  obtain ⟨found, memory⟩ := searched
  match found with
  | .error e => rfl
  | .ok (.error r) => rfl
  | .ok (.ok (some found)) => rfl
  | .ok (.ok none) => cases context.inComposite <;> rfl

/-- A watcher is answered with what a take would find. -/
theorem look_run (s : Bench) : (look setup view pattern).run s =
    match (Queue.take? (Script.accepts setup.program view) pattern s.queue).run s.memory with
    | (.ok (.ok found), memory) =>
      (.ok (.advance ((found.map Prod.fst).getD .null)), { s with memory })
    | (.ok (.error r), memory) => (.error r.failure, { s with memory })
    | (.error e, memory) => (.error (.exn e), { s with memory }) := by
  unfold look
  rw [Act.Candid.run_bind, Act.run_get]
  dsimp only
  rw [Act.Candid.run_bind, Act.run_ofScript, Queue.peek?_eq, map_eq_pure_bind, Eval.run_bind]
  generalize (Queue.take? (Script.accepts setup.program view) pattern s.queue).run s.memory =
    searched
  obtain ⟨found, memory⟩ := searched
  match found with
  | .error e => rfl
  | .ok (.error r) => rfl
  | .ok (.ok found) => rfl

def handed? (h : Handling) (e : Effect) (answer : Except Failure Reaction) : Option Value :=
  match h, e, answer with
  | take, .take _, .ok (.advance a) => some a
  | _, _, _ => none

theorem handed?_eq_none {h : Handling} {e : Effect}
    (other : ¬∃ pattern, h = take ∧ e = .take pattern)
    (answer : Except Failure Reaction) : h.handed? e answer = none := by
  unfold handed?
  split
  · exact (other ⟨_, rfl, rfl⟩).elim
  · rfl

/-- **Each call of a handler hands out what it takes**, and otherwise leaves the queue as it is. -/
theorem react_hands (setup : Setup) (h : Handling) (view : View) (context : Context)
    (e : Effect) (s : Bench) :
    Queue.Hands s.queue (h.handed? e ((h.react setup view context e).run s).1).toList
      ((h.react setup view context e).run s).2.queue := by
  by_cases htake : ∃ pattern, h = take ∧ e = .take pattern
  · obtain ⟨pattern, rfl, rfl⟩ := htake
    show Queue.Hands s.queue (handed? _ _ ((serve setup view context pattern).run s).1).toList
      ((serve setup view context pattern).run s).2.queue
    rw [serve_run]
    have hyields := Queue.take?_yields (Script.accepts setup.program view) pattern s.queue s.memory
    generalize (Queue.take? (Script.accepts setup.program view) pattern s.queue).run s.memory =
      searched at hyields
    obtain ⟨found, memory⟩ := searched
    match found with
    | .error e => exact .refl _
    | .ok (.error r) => exact .refl _
    | .ok (.ok (some (a, queue))) =>
      obtain ⟨passed, rest, hqueue, rfl⟩ := hyields _ rfl a queue rfl
      rw [hqueue]
      exact ⟨[a], .refl _, .middle passed a rest⟩
    | .ok (.ok none) =>
      unfold missed
      cases context.inComposite <;> exact .refl _
  · have hkeeps : (h.react setup view context e).Keeps fun s => s.queue :=
      react_keeps (fun _ _ => rfl) setup h view context (fun _ _ _ _ _ _ _ => rfl)
        fun pattern hh he => (htake ⟨pattern, hh, he⟩).elim
    rw [handed?_eq_none htake, show ((h.react setup view context e).run s).2.queue =
      s.queue from hkeeps s]
    exact .refl _

/-- What becomes of a take and of a watcher that search the queue for the same, where predicates say
what `verdict` has them say. -/
theorem serve_tells {verdict : Value → Value → Option Bool}
    (told : ∀ f ∈ pattern.predicates, ∀ view v,
      (Script.accepts setup.program view f v).Tells (verdict f v))
    (view : View) (context : Context) (s : Bench) :
    (∃ passed a rest, s.queue = passed ++ a :: rest ∧ Queue.Passes verdict pattern passed ∧
      actionMatches verdict a pattern = some (.ok true) ∧ ∃ memory,
        (serve setup view context pattern).run s =
          (.ok (.advance a), { s with memory, queue := passed ++ rest }) ∧
        (look setup view pattern).run s = (.ok (.advance a), { s with memory })) ∨
    (∃ passed b rest, s.queue = passed ++ b :: rest ∧ Queue.Passes verdict pattern passed ∧
      Queue.Balks verdict pattern b ∧ ∃ e memory,
        (serve setup view context pattern).run s = (.error (.exn e), { s with memory }) ∧
        (look setup view pattern).run s = (.error (.exn e), { s with memory })) ∨
    (Queue.Passes verdict pattern s.queue ∧ ∃ memory,
      (serve setup view context pattern).run s = (missed context pattern, { s with memory }) ∧
      (look setup view pattern).run s = (.ok (.advance .null), { s with memory })) := by
  rw [serve_run, look_run]
  have htells := Eval.Tells.echo.take? (fun f hf => told f hf view) s.queue
  obtain ⟨passed, a, rest, hqueue, hpassed, hmatched, hfound⟩ | ⟨passed, b, rest, hqueue,
    hpassed, hbalks, hfound⟩ |
    ⟨hpassed, hfound⟩ := Queue.take?_cases verdict pattern s.queue
  · rw [hfound] at htells
    have hgives := htells s.memory
    generalize (Queue.take? (Script.accepts setup.program view) pattern s.queue).run s.memory =
      searched at hgives
    obtain ⟨found, memory⟩ := searched
    obtain rfl : found = .ok (.ok (some (a, passed ++ rest))) := hgives
    exact .inl ⟨passed, a, rest, hqueue, hpassed, hmatched, memory, rfl, rfl⟩
  · have hraises :
        ∃ e, ((Queue.take? (Script.accepts setup.program view) pattern s.queue).run s.memory).1 =
        .error e ∨ ∃ r, e = r.at (.scheduler 0) ∧
          ((Queue.take? (Script.accepts setup.program view) pattern s.queue).run s.memory).1 =
            .ok (.error r) := by
      rcases hfound with hfound | ⟨r, hfound⟩
      · rw [hfound] at htells
        obtain ⟨e, hraises⟩ := htells s.memory
        exact ⟨e, .inl hraises⟩
      · rw [hfound] at htells
        exact ⟨_, .inr ⟨r, rfl, htells s.memory⟩⟩
    generalize (Queue.take? (Script.accepts setup.program view) pattern s.queue).run s.memory =
      searched at hraises
    obtain ⟨found, memory⟩ := searched
    obtain ⟨e, hfound | ⟨r, rfl, hfound⟩⟩ := hraises
    · obtain rfl : found = .error e := hfound
      exact .inr (.inl ⟨passed, b, rest, hqueue, hpassed, hbalks, e, memory, rfl, rfl⟩)
    · obtain rfl : found = .ok (.error r) := hfound
      exact .inr (.inl ⟨passed, b, rest, hqueue, hpassed, hbalks, _, memory, rfl, rfl⟩)
  · rw [hfound] at htells
    have hgives := htells s.memory
    generalize (Queue.take? (Script.accepts setup.program view) pattern s.queue).run s.memory =
      searched at hgives
    obtain ⟨found, memory⟩ := searched
    obtain rfl : found = .ok (.ok none) := hgives
    exact .inr (.inr ⟨hpassed, memory, rfl, rfl⟩)

end Handling

/-! ### Calls of the handlers -/

/-- A call of a handler: about which effect, at which step, and for which task, within a race or
gather or not. -/
structure Inquiry where
  handling : Handling
  view : View
  context : Context
  effect : Effect

namespace Inquiry

def ask (setup : Setup) (i : Inquiry) (s : Bench) : Except Failure Reaction × Bench :=
  (i.handling.react setup i.view i.context i.effect).run s

/-- The answers to one call after another, and the bench after all of them. -/
def askAll (setup : Setup) : List Inquiry → Bench → List (Inquiry × Except Failure Reaction) × Bench
  | [], s => ([], s)
  | i :: inquiries, s =>
    let rest := askAll setup inquiries (i.ask setup s).2
    ((i, (i.ask setup s).1) :: rest.1, rest.2)

/-- The actions handed out, in the order in which they are. -/
def handedOut (answered : List (Inquiry × Except Failure Reaction)) : List Value :=
  answered.filterMap fun x => x.1.handling.handed? x.1.effect x.2

theorem handedOut_cons (i : Inquiry) (answer : Except Failure Reaction)
    (answered : List (Inquiry × Except Failure Reaction)) :
    handedOut ((i, answer) :: answered) =
      (i.handling.handed? i.effect answer).toList ++ handedOut answered := by
  unfold handedOut
  cases h : i.handling.handed? i.effect answer <;> simp [h]

theorem askAll_hands (setup : Setup) (inquiries : List Inquiry) (s : Bench) :
    Queue.Hands s.queue (handedOut (askAll setup inquiries s).1)
      (askAll setup inquiries s).2.queue := by
  induction inquiries generalizing s with
  | nil => exact .refl _
  | cons i inquiries ih =>
    rw [askAll, handedOut_cons]
    exact (Handling.react_hands setup i.handling i.view i.context i.effect s).trans
      (ih (i.ask setup s).2)

variable {setup : Setup} {verdict : Value → Value → Option Bool} {pattern : Value}

def matching (verdict : Value → Value → Option Bool) (pattern : Value) (queue : List Value) :
    List Value :=
  queue.filter fun a => actionMatches verdict a pattern matches some (.ok true)

/-- A take by the pattern hands out the first action that matches. -/
theorem ask_first (told : ∀ f ∈ pattern.predicates, ∀ view v,
    (Script.accepts setup.program view f v).Tells (verdict f v)) {i : Inquiry}
      (h : i.effect = .take pattern)
    {s : Bench} {a : Value} (handed : i.handling.handed? i.effect (i.ask setup s).1 = some a) :
    matching verdict pattern s.queue = a :: matching verdict pattern (i.ask setup s).2.queue := by
  obtain ⟨handling, view, context, effect⟩ := i
  obtain rfl : effect = .take pattern := h
  obtain rfl : handling = .take := by
    cases handling with
    | take => rfl
    | _ => cases handed
  change Handling.take.handed? _ ((Handling.serve setup view context pattern).run s).1 = _ at handed
  show _ = a :: matching verdict pattern ((Handling.serve setup view context pattern).run s).2.queue
  obtain ⟨passed, b, rest, hqueue, hpassed, hmatched, memory, hserve, -⟩ |
    ⟨passed, b, rest, hqueue, hpassed, hbalks, e, memory, hserve,
      -⟩ | ⟨hpassed, memory, hserve, -⟩ :=
    Handling.serve_tells told view context s
  · rw [hserve] at handed ⊢
    obtain rfl : b = a := Option.some.inj handed
    have hnone : matching verdict pattern passed = [] :=
      List.filter_eq_nil_iff.mpr fun c hc => by simp [hpassed c hc]
    unfold matching at hnone ⊢
    rw [hqueue, List.filter_append, List.filter_append, hnone,
      List.filter_cons_of_pos (by rw [hmatched])]
    rfl
  · rw [hserve] at handed
    cases handed
  · rw [hserve] at handed
    unfold Handling.missed at handed
    cases hcomposite : context.inComposite <;> rw [hcomposite] at handed <;> cases handed

/-- **Takes by one pattern are served in the order of the queue**, whatever else is asked for in
between. -/
theorem handedOut_sublist (told : ∀ f ∈ pattern.predicates, ∀ view v,
    (Script.accepts setup.program view f v).Tells (verdict f v)) (asks : Inquiry → Bool)
    {inquiries : List Inquiry} (h : ∀ i ∈ inquiries, asks i = true →
      i.effect = .take pattern) (s : Bench) :
    (handedOut ((askAll setup inquiries s).1.filter fun x => asks x.1)).Sublist
      (matching verdict pattern s.queue) := by
  -- a take by the pattern removes the first that matches, and no other call puts them in another
  -- order
  induction inquiries generalizing s with
  | nil => exact List.nil_sublist _
  | cons i inquiries ih =>
    have hrest := ih (fun i hi => h i (List.mem_cons_of_mem _ hi)) (i.ask setup s).2
    have hshrinks :=
      ((Handling.react_hands setup i.handling i.view i.context i.effect s).sublist).filter
      fun a => actionMatches verdict a pattern matches some (.ok true)
    rw [askAll]
    by_cases hasks : asks i = true
    · rw [List.filter_cons_of_pos (by exact hasks), handedOut_cons]
      cases hhanded : i.handling.handed? i.effect (i.ask setup s).1 with
      | none => exact hrest.trans hshrinks
      | some a =>
        rw [ask_first told (h i (List.mem_cons_self ..) hasks) hhanded]
        exact hrest.cons_cons a
    · rw [List.filter_cons_of_neg (by exact hasks)]
      exact hrest.trans hshrinks

end Inquiry

/-! ### Conservation -/

/-- **The queue of actions loses nothing and duplicates nothing.** However the handlers are called,
the queue at the beginning is a merge of what is left of it and of what has been handed out, and
takes by one pattern are handed actions in the order of the queue. A take removes the first action
that matches, and a watcher is answered with the same action; where there is none, the take waits or
is refused and the watcher is told so; and where it cannot be told whether an action matches, since
a predicate raises or the type cannot be written, both raise. Nothing but a take that is answered
changes the queue. -/
theorem queue_conserves_actions (setup : Setup) :
    (∀ (inquiries : List Inquiry) (s : Bench),
      Queue.Hands s.queue (Inquiry.handedOut (Inquiry.askAll setup inquiries s).1)
        (Inquiry.askAll setup inquiries s).2.queue) ∧
    ∀ (pattern : Value) (verdict : Value → Value → Option Bool),
      (∀ f ∈ pattern.predicates, ∀ view v,
        (Script.accepts setup.program view f v).Tells (verdict f v)) →
      (∀ (inquiries : List Inquiry) (asks : Inquiry → Bool) (s : Bench),
        (∀ i ∈ inquiries, asks i = true → i.effect = .take pattern) →
        (Inquiry.handedOut ((Inquiry.askAll setup inquiries s).1.filter fun x => asks x.1)).Sublist
          s.queue) ∧
      ∀ (view : View) (context : Context) (helper : Helper) (s : Bench),
        let taken := (Handling.take.react setup view context (.take pattern)).run s
        let watched := (Handling.watch.react setup view context (.watch helper pattern)).run s
        ((∃ passed a rest, s.queue = passed ++ a :: rest ∧ Queue.Passes verdict pattern passed ∧
            actionMatches verdict a pattern = some (.ok true) ∧ ∃ memory,
              taken = (.ok (.advance a), { s with memory, queue := passed ++ rest }) ∧
              watched = (.ok (.advance a), { s with memory })) ∨
          (∃ passed b rest, s.queue = passed ++ b :: rest ∧ Queue.Passes verdict pattern passed ∧
            Queue.Balks verdict pattern b ∧ ∃ e memory,
              taken = (.error (.exn e), { s with memory }) ∧
              watched = (.error (.exn e), { s with memory })) ∨
          (Queue.Passes verdict pattern s.queue ∧ ∃ memory,
            taken = (if context.inComposite then .ok (.defer .null .last (some "take"))
              else .error (Queue.unmatched pattern context.step), { s with memory }) ∧
            watched = (.ok (.advance .null), { s with memory }))) ∧
        (.null ∉ s.queue →
          (watched.1 = .ok (.advance .null) ↔ Queue.Passes verdict pattern s.queue)) := by
  refine ⟨Inquiry.askAll_hands setup,
    fun pattern verdict told => ⟨fun inquiries asks s h => ?_, ?_⟩⟩
  · exact (Inquiry.handedOut_sublist told asks h s).trans List.filter_sublist
  · intro view context helper s taken watched
    have hserved := Handling.serve_tells told view context s
    refine ⟨hserved, fun absent => ?_⟩
    obtain ⟨passed, a, rest, hqueue, -, hmatched, memory, -, hlook⟩ |
      ⟨passed, b, rest, hqueue, -, hbalks, e, memory, -, hlook⟩ | ⟨hpassed, memory, -, hlook⟩ :=
        hserved
    · have ha : a ∈ s.queue := by simp [hqueue]
      rw [show watched = _ from hlook]
      constructor
      · rintro ⟨⟩
        exact (absent ha).elim
      · intro h
        cases (h a ha).symm.trans hmatched
    · have hb : b ∈ s.queue := by simp [hqueue]
      rw [show watched = _ from hlook]
      exact ⟨nofun, fun h => (hbalks false (h b hb)).elim⟩
    · rw [show watched = _ from hlook]
      exact ⟨fun _ => hpassed, fun _ => rfl⟩

def raisingScript :
    Program := ⟨[⟨⟨"raising", .plain⟩, ["action"], [.raise (.exception .value [])]⟩]⟩

def raisingSetup : Setup := ⟨raisingScript, .real, ⟨.null, ⟨false, []⟩, false⟩, .empty⟩

def ping (n : Int) : Value := .dict ⟨false, [(.text "type", .text "PING"), (.text "n", .int n)]⟩

def pong : Value := .dict ⟨false, [(.text "type", .text "PONG")]⟩

/-- The predicate is asked about what is not of the type. -/
def pingPattern : Value := .list [.text "PING", .predicate ⟨"raising", .plain⟩ (.constant 0)]

/-- Takes of one task by the same pattern. -/
def pings (n : Nat) : List Inquiry :=
  List.replicate n ⟨.take, .idle, ⟨⟨0, "saga", false⟩, false, 1⟩, .take pingPattern⟩

/-- Equal actions are handed out one by one. After that a watcher is not told that there are none:
the search ends at the action about which the predicate raises. -/
theorem equal_actions_conserved :
    let queue := [ping 1, ping 1, pong, ping 2]
    let went := Inquiry.askAll raisingSetup (pings 3) { Bench.empty with queue }
    went.2.queue = [pong, ping 2] ∧ Queue.Hands queue [ping 1, ping 1] [pong, ping 2] ∧
      [ping 1, ping 1].Sublist queue ∧
      ((Handling.watch.react raisingSetup .idle ⟨⟨0, "saga", false⟩, false, 1⟩
        (.watch .debounce pingPattern)).run went.2).1 ≠ .ok (.advance .null) := by
  intro queue went
  have hleft : went.2.queue = [pong, ping 2] := by with_unfolding_all rfl
  have hhanded : Inquiry.handedOut went.1 = [ping 1, ping 1] := by with_unfolding_all rfl
  have hchosen : Inquiry.handedOut (went.1.filter fun _ => true) = [ping 1, ping 1] := by
    with_unfolding_all rfl
  have told : ∀ f ∈ pingPattern.predicates, ∀ view v,
      (Script.accepts raisingSetup.program view f v).Tells none := by
    intro f hf view v mem
    rw [List.mem_singleton.mp hf]
    exact ⟨_, rfl⟩
  have asked : ∀ i ∈ pings 3, true = true → i.effect = .take pingPattern := by
    intro i hi _
    rw [List.eq_of_mem_replicate hi]
  have absent : .null ∉ went.2.queue := by
    rw [hleft]
    rintro (_ | ⟨_, _ | ⟨_, ⟨⟩⟩⟩)
  obtain ⟨hconserved, htold⟩ := queue_conserves_actions raisingSetup
  obtain ⟨hordered, hserved⟩ := htold pingPattern (fun _ _ => none) told
  obtain ⟨-, hwatched⟩ := hserved .idle ⟨⟨0, "saga", false⟩, false, 1⟩ .debounce went.2
  have hall := hconserved (pings 3) { Bench.empty with queue }
  have hsublist := hordered (pings 3) (fun _ => true) { Bench.empty with queue } asked
  refine ⟨hleft, by rwa [hhanded, hleft] at hall, by rwa [hchosen] at hsublist, fun h => ?_⟩
  have hpong := (hwatched absent).mp h pong (by rw [hleft]; exact List.mem_cons_self ..)
  have hraises : actionMatches (fun _ _ => none) pong pingPattern = none := by
    with_unfolding_all rfl
  cases hraises.symm.trans hpong

/-! ### Runs -/

def Exchange.handed? : Exchange → Option Value
  | .handled e _ answer => Handling.take.handed? e answer
  | _ => none

namespace Tester

theorem handler?_take (t : Tester) (p : Program) (pattern : Value) :
    (t.setup p).world.handler? (.take pattern) = some fun view context s =>
      (Handling.serve (t.setup p) view context pattern).run s := rfl

theorem hands_accounts (t : Tester) (p : Program) :
    (t.setup p).world.Accounts Exchange.handed? fun s handed s' =>
      Queue.Hands s.queue handed s'.queue where
  refl _ := .refl _
  trans := .trans
  resume _ _ _ _ := .refl _
  plan view call forked s := by
    have hkeeps : (Planner.plan (t.setup p) view call forked).Keeps fun s => s.queue :=
      Planner.plan_keeps (fun _ _ => rfl) (fun _ _ => rfl) (t.setup p) view call forked
    rw [show ((t.setup p).world.plan view call forked s).2.queue = s.queue from hkeeps s]
    exact .refl _
  invoke _ _ _ := .refl _
  handle := by
    intro e handler hhandler view context s
    by_cases htake : ∃ pattern, e = .take pattern
    · obtain ⟨pattern, rfl⟩ := htake
      cases (t.handler?_take p pattern).symm.trans hhandler
      exact Handling.react_hands (t.setup p) .take view context (.take pattern) s
    · obtain ⟨handling, -, rfl⟩ := Option.map_eq_some_iff.mp hhandler
      have hnone : ∀ (h : Handling) answer, h.handed? e answer = none := fun h =>
        Handling.handed?_eq_none fun ⟨pattern, _, he⟩ => htake ⟨pattern, he⟩
      have hhands := Handling.react_hands (t.setup p) handling view context e s
      rw [hnone] at hhands
      rw [show (Exchange.handled e context _).handed? = none from hnone .take _]
      exact hhands

/-- **At all times in a run the queue is what its takes have left of it**, whatever the tasks they
belong to. -/
theorem run_hands (t : Tester) (p : Program) (o : RunOptions) (c : Config Bench) (n : Nat) :
    Queue.Hands c.machine.outer.queue
      ((Config.run (t.setup p).world.recorded o n c.withRecord).machine.outer.2.filterMap
        Exchange.handed?)
      (Config.run (t.setup p).world o n c).machine.outer.queue := (t.hands_accounts p).run o c n

end Tester

end Rehearsal
