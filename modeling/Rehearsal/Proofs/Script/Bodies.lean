import Rehearsal.Proofs.Script.Outlook

/-!
# Bodies keep within their outlook

By induction on the depth to which calls and delegations may nest, and within it on the statements
that a body executes: functions that look at the same things do the same wherever these are the
same.
-/
namespace Rehearsal.Script

open Eval

/-! ### One statement -/

def Flow.within (o : Outlook) : Flow → Bool
  | .next _ ks _ | .suspend _ _ ks => kontsWithin o ks

def Ending.within (o : Outlook) : Ending → Bool
  | .yielded _ _ ks => kontsWithin o ks
  | .returned _ | .raised _ => true

variable {o : Outlook} {host host' : Host} {env : Env} {ks : List Kont}

theorem Host.Alike.within (h : host.Alike o host') (ks : List Kont) :
    (host.within ks).Alike o (host'.within ks) where
  view := h.view
  handled ha := congrArg ((currentException? ks).or ·) (h.handled ha)
  invoke := h.invoke
  resume := h.resume

/-- A bare raise that may stand before `ks` means the same. -/
theorem Host.Alike.handled_within (h : host.Alike o host') (ha : (o.before ks).around = true) :
    (host.within ks).handled = (host'.within ks).handled := by
  rcases Bool.or_eq_true .. |>.mp ha with ha | ha
  · exact (h.within ks).handled ha
  · obtain ⟨e, he⟩ := Option.isSome_iff_exists.mp ha
    simp only [Host.within, he, Option.some_or]

theorem Host.Alike.delegateTo (h : host.Alike o host') (hks : kontsWithin o ks = true) (g : Nat)
    (name : Option String) (signal : Signal) :
    Agrees o (Script.delegateTo host env ks g name signal)
      (Script.delegateTo host' env ks g name signal)
      fun flow => flow.within o = true := by
  unfold Script.delegateTo
  refine (h.resume h.handled g signal).bind fun r _ => ?_
  cases r with
  | yielded v => exact .pure (kontsWithin_cons.mpr ⟨rfl, hks⟩)
  | returned v => exact .pure hks
  | raised e => exact .pure hks

theorem Eval.Agrees.visit (source : Value) (i : Nat) :
    Agrees o (Script.visit source i) (Script.visit source i) fun _ => True :=
  (Agrees.see source).bind fun _ _ => .pure trivial

theorem Eval.Agrees.assignItem (v k x : Value) :
    Agrees o (Script.assignItem v k x) (Script.assignItem v k x) fun _ => True := by
  unfold Script.assignItem
  refine .bind (.ofExcept (P := fun _ => True) fun _ _ => trivial) fun w _ => ?_
  split
  · exact .modifyGet (fun _ hmem => hmem) fun _ => trivial
  · exact .pure trivial

theorem Eval.Agrees.supply (hks : kontsWithin o ks = true) (kind : String) (source : Value)
    (i : Nat) (name : Option String) (signal : Signal) :
    Agrees o (Script.supply env ks kind source i name signal)
      (Script.supply env ks kind source i name signal)
      fun flow => flow.within o = true := by
  unfold Script.supply
  refine (Agrees.visit source i).bind fun item _ => ?_
  split
  · exact .pure (kontsWithin_cons.mpr ⟨rfl, hks⟩)
  · exact .pure hks
  · exact .bind .newOrigin fun _ _ => .pure hks
  · exact .pure hks

theorem Host.Alike.draw (h : host.Alike o host') (hks : kontsWithin o ks = true)
    {name : String} {g : Nat}
    {body : List Stmt} (hbody : bodyWithin (o.before ks) body = true) :
    Agrees o (Script.draw host env ks name g body) (Script.draw host' env ks name g body)
      fun flow => flow.within o = true := by
  unfold Script.draw
  refine (h.resume h.handled g _).bind fun r _ => ?_
  cases r with
  | yielded v => exact .pure (kontsWithin_cons.mpr ⟨hbody, kontsWithin_cons.mpr ⟨hbody, hks⟩⟩)
  | returned v => exact .pure hks
  | raised e => exact .pure hks

theorem Eval.Agrees.raisable {v : Value} :
    Agrees o (Script.raisable v) (Script.raisable v) fun _ => True := by
  unfold Script.raisable
  split
  · exact .pure trivial
  · exact .newException
  · exact .refuse

/-- A statement does the same where what it may look at is the same. -/
theorem Host.Alike.execStmt (h : host.Alike o host') (hks : kontsWithin o ks = true) {s : Stmt}
    (hs : s.within (o.before ks) = true) :
    Agrees o (Script.execStmt host env ks s) (Script.execStmt host' env ks s)
      fun flow => flow.within o = true := by
  have hw := h.within ks
  cases s with
  | assign _ e | eval e | ret e =>
    simp only [Script.execStmt]
    exact (hw.evalExpr env hs).bind fun _ _ => .pure hks
  | yield name e =>
    simp only [Script.execStmt]
    exact (hw.evalExpr env hs).bind fun _ _ => .pure (kontsWithin_cons.mpr ⟨rfl, hks⟩)
  | delegate name e =>
    simp only [Script.execStmt]
    refine (hw.evalExpr env hs).bind fun v _ => ?_
    split
    · exact hw.delegateTo hks ..
    · exact .bind (.ofExcept (P := fun _ => True) fun _ _ => trivial) fun _ _ => .supply hks ..
  | log e =>
    simp only [Script.execStmt, hw.view.steps]
    exact (hw.evalExpr env hs).bind fun _ _ => .bind (.look _) fun _ _ =>
      .bind (.modifyGet (P := fun _ => True) (fun _ hmem => hmem) fun _ => trivial) fun _ _ =>
        .pure hks
  | share _ e =>
    simp only [Script.execStmt]
    exact (hw.evalExpr env hs).bind fun _ _ =>
      .bind (.modifyGet (P := fun _ => True) (fun _ hmem => hmem) fun _ => trivial) fun _ _ =>
        .pure hks
  | assignItem e k v =>
    simp only [Stmt.within, Bool.and_eq_true] at hs
    simp only [Script.execStmt]
    exact (hw.evalExpr env hs.2.2).bind fun _ _ => (hw.evalExpr env hs.1).bind fun _ _ =>
      (hw.evalExpr env hs.2.1).bind fun _ _ => .bind (.see _) fun _ _ =>
        .bind (.assignItem ..) fun _ _ => .pure hks
  | raise e =>
    simp only [Script.execStmt]
    exact (hw.evalExpr env hs).bind fun _ _ => .bind .raisable fun _ _ => .pure hks
  | reraise =>
    simp only [Script.execStmt, h.handled_within hs]
    split
    · exact .pure hks
    · exact .bind .newException fun _ _ => .pure hks
  | stop | next =>
    simp only [Script.execStmt]
    exact .pure hks
  | cond c yes no =>
    simp only [Stmt.within, Bool.and_eq_true] at hs
    simp only [Script.execStmt]
    refine (hw.evalExpr env hs.1).bind fun v _ => .pure (kontsWithin_cons.mpr ⟨?_, hks⟩)
    show bodyWithin _ _ = true
    split
    · exact hs.2.1
    · exact hs.2.2
  | loop c body =>
    simp only [Script.execStmt]
    exact .pure (kontsWithin_cons.mpr ⟨hs, hks⟩)
  | each name e body =>
    simp only [Stmt.within, Bool.and_eq_true] at hs
    simp only [Script.execStmt]
    refine (hw.evalExpr env hs.1).bind fun v _ => ?_
    split
    · exact .pure (kontsWithin_cons.mpr ⟨hs.2, hks⟩)
    · exact .bind (.ofExcept (P := fun _ => True) fun _ _ => trivial) fun _ _ =>
        .pure (kontsWithin_cons.mpr ⟨hs.2, hks⟩)
  | guarded body handlers final =>
    obtain ⟨hbody, hhandlers, hfinal⟩ := Stmt.within_guarded.mp hs
    simp only [Script.execStmt]
    refine .pure (kontsWithin_cons.mpr ⟨hbody, kontsWithin_cons.mpr ⟨?_, hks⟩⟩)
    rw [Kont.within, hhandlers, hfinal]
    rfl

/-! ### One body -/

theorem closeWith_within (hks : kontsWithin o ks = true) {final : Option (List Stmt)}
    (hfinal : bodyWithin (o.before ks) (final.getD []) = true) (c : Completion) :
    (closeWith env final c ks).within o = true := by
  cases final with
  | none => exact hks
  | some body =>
    refine kontsWithin_cons.mpr ⟨?_, kontsWithin_cons.mpr ⟨rfl, hks⟩⟩
    cases c with
    | raised e =>
      have hhandling : bodyWithin (o.before ks).handling body = true := bodyWithin_handling hfinal
      show bodyWithin (o.before (.closing (.raised e) :: ks)) body = true
      rwa [Outlook.before_of_isSome rfl]
    | _ => exact hfinal

/-- Where a statement's end leads is within the outlook. -/
theorem leave_within {k : Kont} (hk : k.within (o.before ks) = true) (hks : kontsWithin o ks = true)
    (c : Completion) : (leave env c k ks).within o = true := by
  unfold leave
  split
  · simp only [Kont.within, Bool.and_eq_true] at hk
    exact closeWith_within hks hk.2 _
  · exact closeWith_within hks hk _
  · exact hks
  · exact hks
  · exact hks
  · exact hks
  · exact kontsWithin_cons.mpr ⟨hk, hks⟩
  · exact kontsWithin_cons.mpr ⟨hk, hks⟩
  · exact kontsWithin_cons.mpr ⟨hk, hks⟩
  · exact hks

/-- The handler that takes an exception is one of them. -/
theorem mem_of_handlerFor? {e : Exn} {handlers : List Handler} {handler : Handler}
    (h : handlerFor? e handlers = .ok (some handler)) : handler ∈ handlers := by
  induction handlers with
  | nil => cases h
  | cons first rest ih =>
    unfold handlerFor? at h
    split at h
    · cases h
    · split at h
      · cases h
        exact List.mem_cons_self ..
      · exact List.mem_cons_of_mem _ (ih h)

theorem Eval.Agrees.handle (hks : kontsWithin o ks = true) {e : Exn} {handlers : List Handler}
    {final : Option (List Stmt)} (hhandlers : handlersWithin (o.before ks) handlers = true)
    (hfinal : bodyWithin (o.before ks) (final.getD []) = true) :
    Agrees o (Script.handle env e handlers final ks) (Script.handle env e handlers final ks)
      fun flow => flow.within o = true := by
  unfold Script.handle
  split
  · -- within the handler a bare raise means the exception it has caught
    rename_i handler hhandler
    refine .pure (kontsWithin_cons.mpr ⟨?_, kontsWithin_cons.mpr ⟨hfinal, hks⟩⟩)
    rw [Outlook.before_of_isSome rfl]
    exact handlersWithin_iff.mp hhandlers handler (mem_of_handlerFor? hhandler)
  · exact .pure (closeWith_within hks hfinal _)
  · exact .bind .newOrigin fun _ _ => .pure (closeWith_within hks hfinal _)

theorem Host.Alike.continueWith (h : host.Alike o host') {k : Kont}
    (hk : k.within (o.before ks) = true)
    (hks : kontsWithin o ks = true) (c : Completion) :
    Agrees o (Script.continueWith host env c k ks) (Script.continueWith host' env c k ks)
      fun flow => flow.within o = true := by
  unfold Script.continueWith
  split
  · exact .pure hks
  · obtain ⟨hs, hrest⟩ := bodyWithin_cons.mp hk
    have hrest' : kontsWithin o (.seq _ :: ks) = true := kontsWithin_cons.mpr ⟨hrest, hks⟩
    exact (h.execStmt hrest' hs).tryCatch fun e => .pure hrest'
  · have hloop := hk
    simp only [Kont.within, Bool.and_eq_true] at hloop
    refine Agrees.tryCatch ?_ fun e => .pure hks
    refine ((h.within ks).evalExpr env hloop.1).bind fun v _ => ?_
    split
    · exact .pure (kontsWithin_cons.mpr ⟨hloop.2, kontsWithin_cons.mpr ⟨hk, hks⟩⟩)
    · exact .pure hks
  · refine (Agrees.visit _ _).bind fun item _ => ?_
    split
    · exact .pure (kontsWithin_cons.mpr ⟨hk, kontsWithin_cons.mpr ⟨hk, hks⟩⟩)
    · exact .pure hks
  · exact (h.within ks).draw hks hk
  · simp only [Kont.within, Bool.and_eq_true] at hk
    exact .handle hks hk.1 hk.2
  · exact .pure (leave_within hk hks _)

/-- What is left to do of a body is done the same way, one statement after the other. -/
theorem Host.Alike.runBody (h : host.Alike o host') (fuel : Nat) (hks : kontsWithin o ks = true)
    (c : Completion) :
    Agrees o (Script.runBody host fuel env ks c) (Script.runBody host' fuel env ks c)
      fun ending => ending.within o = true := by
  induction fuel generalizing env ks c with
  | zero => exact .pure rfl
  | succ fuel ih =>
    unfold Script.runBody
    cases ks with
    | nil =>
      refine .pure ?_
      cases c <;> rfl
    | cons k ks =>
      obtain ⟨hk, hks⟩ := kontsWithin_cons.mp hks
      refine (h.continueWith hk hks c).bind fun flow hflow => ?_
      cases flow with
      | next env ks c => exact ih hflow c
      | suspend v env ks => exact .pure hflow

/-! ### Calls and generators -/

theorem Memory.Within.newGenerator {mem : Memory} (h : mem.Within o) (env : Env) {body : List Stmt}
    (hbody : bodyWithin o body = true) : (mem.newGenerator env body).2.Within o := by
  intro g state hstate
  simp only [Memory.newGenerator, Array.getElem?_push] at hstate
  split at hstate
  · cases hstate
    exact hbody
  · exact h g state hstate

theorem Memory.Within.setGenerator {mem : Memory} (h : mem.Within o) (g : Nat)
    {state : GeneratorState}
    (hstate : state.within o = true) : (mem.setGenerator g state).Within o := by
  intro i state' hstate'
  simp only [Memory.setGenerator, Array.getElem?_setIfInBounds] at hstate'
  split at hstate'
  · split at hstate'
    · cases hstate'
      exact hstate
    · cases hstate'
  · exact h i state' hstate'

theorem watcherBody_within (w : Watcher) : bodyWithin o (watcherBody w) = true := by
  have hargs :
      allWithin o.reads (.const w.worker :: w.args.map Expr.const ++ [.var "action"]) = true := by
    rw [allWithin_iff]
    intro e he
    simp only [List.mem_append, List.mem_cons, List.mem_map, List.not_mem_nil, or_false] at he
    rcases he with (rfl | ⟨v, _, rfl⟩) | rfl <;> rfl
  unfold watcherBody
  split <;> simp only [bodyWithin, List.cons_append, List.nil_append, Stmt.within,
    Expr.within, Bool.and_true,
    Bool.and_self, Bool.true_and] <;> exact hargs

section Calls

variable {p : Program}

theorem Program.Within.find? (hp : p.Within o) {name : String} {d : Declaration}
    (h : p.find? name = some d) : bodyWithin o d.body = true :=
  hp d (List.mem_reverse.mp (List.mem_of_find?_eq_some h))

theorem Host.Alike.callFunction (h : host.Alike o host') (hp : p.Within o)
    (f : Function) (args : List Value)
    (kwargs : List (String × Value)) :
    Agrees o (Script.callFunction p host f args kwargs) (Script.callFunction p host' f args kwargs)
      fun _ => True := by
  unfold Script.callFunction
  split
  · exact .pure trivial
  · split
    · exact .refuse
    · exact .pure trivial
  · split
    · exact .pure trivial
    · rename_i d hd
      exact .bind
        (.modifyGet (P := fun _ => True) (fun mem hmem => hmem.newGenerator _ (hp.find? hd))
        fun _ => trivial) fun _ _ => .pure trivial
  · split
    · exact .pure trivial
    · rename_i d hd
      have hbody : kontsWithin o [.seq d.body] = true :=
        kontsWithin_singleton.mpr (hp.find? hd)
      refine (h.runBody unboundedFuel hbody .normal).bind fun ending _ => ?_
      cases ending with
      | yielded v env ks => exact .pure trivial
      | returned v => exact .pure trivial
      | raised e => exact .throw

theorem Host.Alike.callValue (h : host.Alike o host') (hp : p.Within o)
    (fn : Value) (args : List Value)
    (kwargs : List (String × Value)) :
    Agrees o (Script.callValue p host fn args kwargs) (Script.callValue p host' fn args kwargs)
      fun _ => True := by
  unfold Script.callValue
  split
  · exact h.callFunction hp ..
  · exact h.callFunction hp ..
  · exact .bind (.modifyGet (P := fun _ => True)
      (fun mem hmem => hmem.newGenerator _ (watcherBody_within _)) fun _ => trivial)
      fun _ _ => .pure trivial
  · exact .construct
  · exact .refuse

end Calls

theorem Eval.Agrees.setGenerator (g : Nat) {state : GeneratorState}
    (hstate : state.within o = true) :
    Agrees o (modify fun mem => mem.setGenerator g state : Eval Unit)
      (modify fun mem => mem.setGenerator g state) fun _ => True :=
  .modifyGet (fun _ hmem => hmem.setGenerator g hstate) fun _ => trivial

theorem Eval.Agrees.leaveGenerator (e : Exn) :
    Agrees o (Script.leaveGenerator e) (Script.leaveGenerator e) fun _ => True := by
  unfold Script.leaveGenerator
  split
  · exact .newException
  · exact .pure trivial

theorem Eval.Agrees.settleGenerator (g : Nat) {ending : Ending} (h : ending.within o = true) :
    Agrees o (Script.settleGenerator g ending) (Script.settleGenerator g ending) fun _ => True := by
  unfold Script.settleGenerator
  cases ending with
  | yielded v env ks =>
    have hstate : (GeneratorState.suspended env ks).within o = true := h
    exact (Agrees.setGenerator g hstate).bind fun _ _ => .pure trivial
  | returned v => exact (Agrees.setGenerator g rfl).bind fun _ _ => .pure trivial
  | raised e =>
    exact (Agrees.setGenerator g rfl).bind fun _ _ =>
      (Agrees.leaveGenerator e).bind fun _ _ => .pure trivial

theorem Host.Alike.runGenerator (h : host.Alike o host') (g : Nat) {flow flow' : Eval Flow}
    (hflow : Agrees o flow flow' fun flow => flow.within o = true) :
    Agrees o (Script.runGenerator host g flow) (Script.runGenerator host' g flow') fun _ =>
      True := by
  unfold Script.runGenerator
  refine (Agrees.setGenerator g rfl).bind fun _ _ => hflow.bind fun flow hstand => ?_
  cases flow with
  | next env ks c =>
    exact (h.runBody unboundedFuel hstand c).bind fun _ hending => .settleGenerator g hending
  | suspend v env ks => exact .settleGenerator g hstand

theorem Host.Alike.resumeGenerator (h : host.Alike o host') (g : Nat) (signal : Signal) :
    Agrees o (Script.resumeGenerator host g signal) (Script.resumeGenerator host' g signal) fun _ =>
      True := by
  unfold Script.resumeGenerator
  refine Agrees.get.bind fun mem hmem => ?_
  have hstate : (mem.generators[g]?.getD .finished).within o = true := by
    cases hget : mem.generators[g]? with
    | none => rfl
    | some state => exact hmem g state hget
  generalize mem.generators[g]?.getD .finished = state at hstate
  split
  · exact .bind .newException fun _ _ => .pure trivial
  · exact .pure trivial
  · split
    · exact .pure trivial
    · exact .pure trivial
  · exact h.runGenerator g (.pure (kontsWithin_singleton.mpr hstate))
  · exact .bind .newException fun _ _ => .pure trivial
  · exact .settleGenerator g rfl
  · exact h.runGenerator g (.pure (kontsWithin_cons.mp hstate).2)
  · exact h.runGenerator g (.pure (kontsWithin_cons.mp hstate).2)
  · exact h.runGenerator g ((h.within _).delegateTo (kontsWithin_cons.mp hstate).2 ..)
  · exact h.runGenerator g (.supply (kontsWithin_cons.mp hstate).2 ..)
  · exact h.runGenerator g (.pure hstate)

/-- **Code does not see past its outlook**, however deep its calls and delegations nest. -/
theorem Program.Within.host_alike {p : Program} (hp : p.Within o) {view view' : View}
    (hview : o.Shows view view') (depth : Nat) {around around' : Option Exn}
    (haround : o.Agrees around around') :
    Host.Alike o { Script.host p view depth with handled := around }
      { Script.host p view' depth with handled := around' } := by
  induction depth generalizing around around' with
  | zero =>
    exact ⟨hview, haround, fun _ _ _ _ => .bind .newException fun _ _ => .throw,
      fun _ _ _ => .bind .newException fun _ _ => .pure trivial⟩
  | succ depth ih =>
    exact ⟨hview, haround, fun hwithin fn args kwargs => (ih hwithin).callValue hp fn args kwargs,
      fun hwithin g signal => (ih hwithin).resumeGenerator g signal⟩

/-! ### The script from outside -/

namespace Program.Within

variable {p : Program} (hp : p.Within o) {view view' : View} (hview : o.Shows view view')
include hp hview

theorem outermost_alike : (outermost p view).Alike o (outermost p view') :=
  hp.host_alike hview nestingLimit hview.handled

theorem call_agrees (fn : Value) (args : List Value) (kwargs : List (String × Value)) :
    Agrees o (Script.call p view fn args kwargs) (Script.call p view' fn args kwargs) fun _ =>
      True :=
  (Agrees.adoptAll args).bind fun _ _ => (hp.outermost_alike hview).invoke hview.handled ..

theorem accepts_agrees (predicate v : Value) :
    Agrees o (Script.accepts p view predicate v) (Script.accepts p view' predicate v) fun _ =>
      True :=
  (hp.call_agrees hview predicate [v] []).bind fun _ _ => .pure trivial

theorem answer_agrees (g : Nat) (signal : Signal) :
    Agrees o (Script.answer p view g signal) (Script.answer p view' g signal) fun _ => True := by
  have hreceive : Agrees o (Script.receive signal) (Script.receive signal) fun _ => True := by
    cases signal with
    | send v => exact (Agrees.adopt v).bind fun _ _ => .pure trivial
    | throw e => exact .pure trivial
  exact hreceive.bind fun _ _ => (hp.outermost_alike hview).resume hview.handled ..

theorem resume_eq (g : Nat) (signal : Signal) {mem : Memory} (hmem : mem.Within o) :
    resume p view g signal mem = resume p view' g signal mem := by
  unfold resume
  rw [(hp.answer_agrees hview g signal).run hmem]

omit hview in
theorem resume_kept (view : View) (g : Nat) (signal : Signal) {mem : Memory} (hmem : mem.Within o) :
    (resume p view g signal mem).2.Within o := by
  have hkept := (hp.answer_agrees (.refl view) g signal).kept hmem
  unfold resume
  split
  · rename_i hrun
    exact (congrArg (·.2.Within o) hrun).mp hkept
  · rename_i hrun
    exact (congrArg (·.2.Within o) hrun).mp hkept

end Program.Within

end Rehearsal.Script
