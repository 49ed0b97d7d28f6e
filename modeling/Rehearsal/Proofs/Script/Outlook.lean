import Rehearsal.Script.Eval

/-!
# What code looks at

Beside the step counter, code can tell by two things where it is run: by the attributes of markers
that it reads, and by a bare raise that stands in no handler of its own function. An outlook says
how far code may look at these. What is left to do of a body keeps within the outlook of the body.
-/
namespace Rehearsal.Script

/-! ### Outlooks -/

/-- What code may look at. -/
structure Outlook where
  /-- The attributes that may be read. -/
  reads : String → Bool
  /-- Whether bare raises may mean an exception that is being handled around the function. -/
  around : Bool

namespace Outlook

def handling (o : Outlook) : Outlook := { o with around := true }

/-- The outlook of statements that stand before `ks`. -/
def before (o : Outlook) (ks : List Kont) : Outlook :=
  { o with around := o.around || (currentException? ks).isSome }

end Outlook

mutual

def Expr.within (reads : String → Bool) : Expr → Bool
  | .const _ | .literal _ | .var _ | .shared _ | .steps => true
  | .list es | .tuple es | .exception _ es | .effect _ es => allWithin reads es
  | .dict es => entriesWithin reads es
  | .unary _ e => e.within reads
  | .binary _ a b | .both a b | .either a b => a.within reads && b.within reads
  | .attr e name => e.within reads && reads name
  | .invoke fn args kwargs => fn.within reads && (allWithin reads args && namedWithin reads kwargs)

def allWithin (reads : String → Bool) : List Expr → Bool
  | [] => true
  | e :: es => e.within reads && allWithin reads es

def entriesWithin (reads : String → Bool) : List (Expr × Expr) → Bool
  | [] => true
  | (k, v) :: es => k.within reads && (v.within reads && entriesWithin reads es)

def namedWithin (reads : String → Bool) : List (String × Expr) → Bool
  | [] => true
  | (_, e) :: es => e.within reads && namedWithin reads es

end

mutual

/-- The statement looks at nothing else. -/
def Stmt.within (o : Outlook) : Stmt → Bool
  | .assign _ e | .yield _ e | .log e | .delegate _ e | .share _ e | .eval e | .ret e | .raise e =>
      e.within o.reads
  | .assignItem e k v => e.within o.reads && (k.within o.reads && v.within o.reads)
  | .reraise => o.around
  | .stop | .next => true
  | .cond c yes no => c.within o.reads && (bodyWithin o yes && bodyWithin o no)
  | .loop c body | .each _ c body => c.within o.reads && bodyWithin o body
  | .guarded body handlers none => bodyWithin o body && handlersWithin o handlers
  | .guarded body handlers (some final) =>
    bodyWithin o body && (handlersWithin o handlers && bodyWithin o final)

def bodyWithin (o : Outlook) : List Stmt → Bool
  | [] => true
  | s :: rest => s.within o && bodyWithin o rest

def handlersWithin (o : Outlook) : List Handler → Bool
  | [] => true
  | ⟨_, _, body⟩ :: rest => bodyWithin o.handling body && handlersWithin o rest

end

def Kont.within (o : Outlook) : Kont → Bool
  | .seq body | .each _ _ _ body | .drawing _ _ body => bodyWithin o body
  | .loop c body => c.within o.reads && bodyWithin o body
  | .guarded handlers final => handlersWithin o handlers && bodyWithin o (final.getD [])
  | .handling _ final => bodyWithin o (final.getD [])
  | .closing _ | .receive _ | .delegating _ _ | .supplying _ _ _ _ => true

def kontsWithin (o : Outlook) : List Kont → Bool
  | [] => true
  | k :: ks => k.within (o.before ks) && kontsWithin o ks

def GeneratorState.within (o : Outlook) : GeneratorState → Bool
  | .fresh _ body => bodyWithin o body
  | .suspended _ ks => kontsWithin o ks
  | .running | .finished => true

/-- What is left to do of every generator looks at nothing else. -/
def Memory.Within (o : Outlook) (mem : Memory) : Prop :=
  ∀ (g : Nat) (state : GeneratorState), mem.generators[g]? = some state → state.within o = true

/-- The bodies of all functions look at nothing else. -/
def Program.Within (o : Outlook) (p : Program) :
    Prop := ∀ d ∈ p.declarations, bodyWithin o d.body = true

section Bodies

variable {o : Outlook} {ks : List Kont}

@[simp] theorem Outlook.before_nil : o.before [] = o := by
  rw [before, currentException?, Option.isSome_none, Bool.or_false]

theorem Outlook.before_of_isSome (h : (currentException? ks).isSome = true) :
    o.before ks = o.handling := by
  rw [before, h, Bool.or_true, handling]

@[simp] theorem bodyWithin_cons {s : Stmt} {rest : List Stmt} :
    bodyWithin o (s :: rest) = true ↔ s.within o = true ∧ bodyWithin o rest = true := by
  rw [bodyWithin, Bool.and_eq_true]

@[simp] theorem kontsWithin_cons {k : Kont} :
    kontsWithin o (k :: ks) = true ↔ k.within (o.before ks) = true ∧ kontsWithin o ks = true := by
  rw [kontsWithin, Bool.and_eq_true]

theorem kontsWithin_singleton {k : Kont} : kontsWithin o [k] = true ↔ k.within o = true := by
  rw [kontsWithin_cons, Outlook.before_nil, kontsWithin]
  exact and_iff_left rfl

theorem allWithin_iff {reads : String → Bool} {es : List Expr} :
    allWithin reads es = true ↔ ∀ e ∈ es, e.within reads = true := by
  induction es with
  | nil => simp [allWithin]
  | cons e es ih => simp [allWithin, ih]

theorem Stmt.within_guarded {body : List Stmt} {handlers : List Handler}
    {final : Option (List Stmt)} :
    (Stmt.guarded body handlers final).within o = true ↔ bodyWithin o body = true ∧
      handlersWithin o handlers = true ∧ bodyWithin o (final.getD []) = true := by
  cases final with
  | none => simp [Stmt.within, bodyWithin]
  | some final => simp [Stmt.within]

theorem handlersWithin_iff {handlers : List Handler} :
    handlersWithin o handlers = true ↔ ∀ h ∈ handlers, bodyWithin o.handling h.body = true := by
  induction handlers with
  | nil => simp [handlersWithin]
  | cons h rest ih =>
    obtain ⟨classes, name, body⟩ := h
    simp [handlersWithin, ih]

mutual

/-- Whoever looks at nothing that is handled around may do so. -/
theorem Stmt.within_handling {s : Stmt} (h : s.within o = true) : s.within o.handling = true := by
  cases s with
  | cond c yes no =>
    simp only [Stmt.within, Bool.and_eq_true] at h ⊢
    exact ⟨h.1, bodyWithin_handling h.2.1, bodyWithin_handling h.2.2⟩
  | loop c body =>
    simp only [Stmt.within, Bool.and_eq_true] at h ⊢
    exact ⟨h.1, bodyWithin_handling h.2⟩
  | each name e body =>
    simp only [Stmt.within, Bool.and_eq_true] at h ⊢
    exact ⟨h.1, bodyWithin_handling h.2⟩
  | guarded body handlers final =>
    have hhandlers : handlersWithin o handlers = true →
        handlersWithin o.handling handlers = true := by
      intro hbodies
      rw [handlersWithin_iff] at hbodies ⊢
      exact hbodies
    cases final with
    | none =>
      simp only [Stmt.within, Bool.and_eq_true] at h ⊢
      exact ⟨bodyWithin_handling h.1, hhandlers h.2⟩
    | some final =>
      simp only [Stmt.within, Bool.and_eq_true] at h ⊢
      exact ⟨bodyWithin_handling h.1, hhandlers h.2.1, bodyWithin_handling h.2.2⟩
  | reraise => rfl
  | _ => exact h

theorem bodyWithin_handling {body : List Stmt} (h : bodyWithin o body = true) :
    bodyWithin o.handling body = true := by
  cases body with
  | nil => rfl
  | cons s rest =>
    obtain ⟨hs, hrest⟩ := bodyWithin_cons.mp h
    exact bodyWithin_cons.mpr ⟨Stmt.within_handling hs, bodyWithin_handling hrest⟩

end

end Bodies

/-! ### Computations that agree -/

namespace Eval

variable {α β : Type}

/-- From memory within the outlook the two computations do the same. They leave it within the
outlook, and what they yield satisfies `P`. -/
structure Agrees (o : Outlook) (x y : Eval α) (P : α → Prop) : Prop where
  run {mem : Memory} (hmem : mem.Within o) : x.run mem = y.run mem
  kept {mem : Memory} (hmem : mem.Within o) : (x.run mem).2.Within o
  value {mem : Memory} (hmem : mem.Within o) {a : α} (ha : (x.run mem).1 = .ok a) : P a

theorem run_bind (x : Eval α) (f : α → Eval β) (mem : Memory) :
    (x >>= f).run mem = match x.run mem with
      | (.ok a, mem) => (f a).run mem
      | (.error e, mem) => (.error e, mem) := by
  cases hr : x.run mem with
  | mk r mem' =>
    have hx : (x : StateT Memory Id (Except Exn α)) mem = (r, mem') := hr
    show (ExceptT.bind x f : StateT Memory Id (Except Exn β)) mem = _
    cases r with
    | ok a => simp only [ExceptT.bind, ExceptT.mk, Bind.bind, StateT.bind, hx]; rfl
    | error e => simp only [ExceptT.bind, ExceptT.mk, Bind.bind, StateT.bind, hx]; rfl

theorem run_tryCatch (x : Eval α) (f : Exn → Eval α) (mem : Memory) :
    (tryCatch x f).run mem = match x.run mem with
      | (.ok a, mem) => (.ok a, mem)
      | (.error e, mem) => (f e).run mem := by
  cases hr : x.run mem with
  | mk r mem' =>
    have hx : (x : StateT Memory Id (Except Exn α)) mem = (r, mem') := hr
    show (ExceptT.tryCatch x f : StateT Memory Id (Except Exn α)) mem = _
    cases r with
    | ok a => simp only [ExceptT.tryCatch, ExceptT.mk, Bind.bind, StateT.bind, hx]; rfl
    | error e => simp only [ExceptT.tryCatch, ExceptT.mk, Bind.bind, StateT.bind, hx]; rfl

namespace Agrees

variable {o : Outlook} {P : α → Prop} {Q : β → Prop} {x y : Eval α} {f g : α → Eval β}

theorem pure {a : α} (h : P a) : Agrees o (Pure.pure a : Eval α) (Pure.pure a) P where
  run _ := rfl
  kept hmem := hmem
  value _ _ ha := by
    cases ha
    exact h

theorem throw {e : Exn} : Agrees o (MonadExcept.throw e : Eval α) (MonadExcept.throw e) P where
  run _ := rfl
  kept hmem := hmem
  value _ _ ha := by cases ha

theorem get : Agrees o (MonadState.get : Eval Memory) MonadState.get (Memory.Within o) where
  run _ := rfl
  kept hmem := hmem
  value hmem _ ha := by
    cases ha
    exact hmem

theorem modifyGet {f : Memory → α × Memory} (hf : ∀ mem, mem.Within o → (f mem).2.Within o)
    (hP : ∀ mem, P (f mem).1) :
    Agrees o (MonadState.modifyGet f : Eval α) (MonadState.modifyGet f) P where
  run _ := rfl
  kept hmem := hf _ hmem
  value _ _ ha := by
    cases ha
    exact hP _

theorem bind (hx : Agrees o x y P) (hf : ∀ a, P a → Agrees o (f a) (g a) Q) :
    Agrees o (x >>= f) (y >>= g) Q := by
  constructor
  case run =>
    intro mem hmem
    rw [run_bind, run_bind, ← hx.run hmem]
    split
    · rename_i hrun
      have hkept := hx.kept hmem
      rw [hrun] at hkept
      exact (hf _ (hx.value hmem (by rw [hrun]))).run hkept
    · rfl
  case kept =>
    intro mem hmem
    have hkept := hx.kept hmem
    rw [run_bind]
    split
    · rename_i hrun
      rw [hrun] at hkept
      exact (hf _ (hx.value hmem (by rw [hrun]))).kept hkept
    · rename_i hrun
      rwa [hrun] at hkept
  case value =>
    intro mem hmem b hb
    have hkept := hx.kept hmem
    rw [run_bind] at hb
    split at hb
    · rename_i hrun
      rw [hrun] at hkept
      exact (hf _ (hx.value hmem (by rw [hrun]))).value hkept hb
    · cases hb

theorem tryCatch {h : Exn → Eval α} (hx : Agrees o x y P) (hh : ∀ e, Agrees o (h e) (h e) P) :
    Agrees o (MonadExcept.tryCatch x h) (MonadExcept.tryCatch y h) P := by
  constructor
  case run =>
    intro mem hmem
    exact (run_tryCatch x h mem).trans ((run_tryCatch y h mem).trans (by rw [hx.run hmem])).symm
  case kept =>
    intro mem hmem
    have hkept := hx.kept hmem
    rw [show (MonadExcept.tryCatch x h).run mem = _ from run_tryCatch x h mem]
    split
    · rename_i hrun
      rwa [hrun] at hkept
    · rename_i hrun
      rw [hrun] at hkept
      exact (hh _).kept hkept
  case value =>
    intro mem hmem a ha
    have hkept := hx.kept hmem
    rw [show (MonadExcept.tryCatch x h).run mem = _ from run_tryCatch x h mem] at ha
    split at ha
    · rename_i hrun
      cases ha
      exact hx.value hmem (by rw [hrun])
    · rename_i hrun
      rw [hrun] at hkept
      exact (hh _).value hkept ha

theorem newNumber : Agrees o Eval.newNumber Eval.newNumber fun _ => True :=
  modifyGet (fun _ hmem => hmem) fun _ => trivial

theorem newOrigin : Agrees o Eval.newOrigin Eval.newOrigin fun _ => True :=
  newNumber.bind fun _ _ => pure trivial

theorem adoptAll (vs : List Value) :
    Agrees o (Eval.adoptAll vs) (Eval.adoptAll vs) fun _ => True :=
  modifyGet (fun _ hmem => hmem) fun _ => trivial

theorem adopt (v : Value) : Agrees o (Eval.adopt v) (Eval.adopt v) fun _ => True :=
  (adoptAll [v]).bind fun _ _ => pure trivial

theorem see (v : Value) : Agrees o (Eval.see v) (Eval.see v) fun _ => True :=
  get.bind fun _ _ => pure trivial

theorem look (v : Value) : Agrees o (Eval.look v) (Eval.look v) fun _ => True :=
  get.bind fun _ _ => pure trivial

theorem refuse {r : Refusal} : Agrees o (Eval.refuse r : Eval α) (Eval.refuse r) P :=
  newOrigin.bind fun _ _ => throw

theorem ofExcept {r : Except Refusal α} (hP : ∀ a, r = .ok a → P a) :
    Agrees o (Eval.ofExcept r) (Eval.ofExcept r) P := by
  cases r with
  | ok a => exact pure (hP a rfl)
  | error r => exact refuse

/-- What is not refused is adopted. -/
theorem adoptOk (r : Except Refusal Value) :
    Agrees o (Eval.ofExcept r >>= Eval.adopt) (Eval.ofExcept r >>= Eval.adopt) fun _ => True :=
  (ofExcept (P := fun _ => True) fun _ _ => trivial).bind fun v _ => adopt v

theorem newException {kind : ErrorClass} {args : List Value} :
    Agrees o (Eval.newException kind args) (Eval.newException kind args) fun _ => True :=
  (ofExcept (P := fun _ => True) fun _ _ => trivial).bind fun _ _ =>
    newOrigin.bind fun _ _ => pure trivial

theorem construct {t : TypeName} {args : List Value} {named : List (String × Value)} :
    Agrees o (Eval.construct t args named) (Eval.construct t args named) fun _ => True := by
  unfold Eval.construct
  split
  · exact (ofExcept (P := fun _ => True) fun _ _ => trivial).bind fun _ _ =>
      newException.bind fun _ _ => pure trivial
  · exact newOrigin.bind fun _ _ => adoptOk _

end Agrees

end Eval

/-! ### Expressions -/

open Eval

def Outlook.Agrees (o : Outlook) (around around' : Option Exn) : Prop :=
  o.around = true → around = around'

/-- The views show the same step counter, and the same attributes and exception being handled as far
as they may be looked at. -/
structure Outlook.Shows (o : Outlook) (view view' : View) : Prop where
  attr {name : String} (h : o.reads name = true) (v : Value) :
    attributeOf view v name = attributeOf view' v name
  steps : view.steps = view'.steps
  handled : o.Agrees view.handled view'.handled

theorem Outlook.Shows.refl {o : Outlook} (view : View) : o.Shows view view :=
  ⟨fun _ _ => rfl, rfl, fun _ => rfl⟩

/-- The hosts show and handle the same as far as it may be looked at, and what they call and resume
agrees. -/
structure Host.Alike (o : Outlook) (host host' : Host) : Prop where
  view : o.Shows host.view host'.view
  handled : o.Agrees host.handled host'.handled
  invoke {around around' : Option Exn} (h : o.Agrees around around')
    (fn : Value) (args : List Value)
    (kwargs : List (String × Value)) :
    Agrees o (host.invoke around fn args kwargs) (host'.invoke around' fn args kwargs) fun _ => True
  resume {around around' : Option Exn} (h : o.Agrees around around') (g : Nat) (signal : Signal) :
    Agrees o (host.resume around g signal) (host'.resume around' g signal) fun _ => True

section Expressions

variable {o : Outlook} {host host' : Host}

mutual

theorem Host.Alike.evalExpr (h : host.Alike o host') (env : Env) {e : Expr}
    (he : e.within o.reads = true) :
    Agrees o (Script.evalExpr host env e) (Script.evalExpr host' env e) fun _ => True := by
  cases e with
  | const _ =>
    simp only [Script.evalExpr]
    exact .pure trivial
  | var _ =>
    simp only [Script.evalExpr]
    exact .see _
  | literal v =>
    simp only [Script.evalExpr]
    exact .bind .newNumber fun _ _ => .adopt _
  | shared key =>
    simp only [Script.evalExpr]
    exact .bind .get fun _ _ => .see _
  | list es =>
    simp only [Expr.within] at he
    simp only [Script.evalExpr]
    exact (h.evalAll env he).bind fun _ _ => .adopt _
  | tuple es =>
    simp only [Expr.within] at he
    simp only [Script.evalExpr]
    exact (h.evalAll env he).bind fun _ _ => .pure trivial
  | dict es =>
    simp only [Expr.within] at he
    simp only [Script.evalExpr]
    exact (h.evalEntries env he).bind fun _ _ => .adoptOk _
  | unary op e =>
    simp only [Expr.within] at he
    simp only [Script.evalExpr]
    exact (h.evalExpr env he).bind fun _ _ => .bind (.look _) fun _ _ =>
      .ofExcept fun _ _ => trivial
  | binary op a b =>
    simp only [Expr.within, Bool.and_eq_true] at he
    simp only [Script.evalExpr]
    exact (h.evalExpr env he.1).bind fun _ _ => (h.evalExpr env he.2).bind fun _ _ =>
      .bind .newOrigin fun _ _ => .bind (.see _) fun _ _ => .bind (.see _) fun _ _ => .adoptOk _
  | both a b =>
    simp only [Expr.within, Bool.and_eq_true] at he
    simp only [Script.evalExpr]
    refine (h.evalExpr env he.1).bind fun _ _ => ?_
    split
    · exact h.evalExpr env he.2
    · exact .pure trivial
  | either a b =>
    simp only [Expr.within, Bool.and_eq_true] at he
    simp only [Script.evalExpr]
    refine (h.evalExpr env he.1).bind fun _ _ => ?_
    split
    · exact .pure trivial
    · exact h.evalExpr env he.2
  | attr e name =>
    simp only [Expr.within, Bool.and_eq_true] at he
    simp only [Script.evalExpr]
    refine (h.evalExpr env he.1).bind fun v _ => ?_
    rw [h.view.attr he.2]
    exact .ofExcept fun _ _ => trivial
  | steps =>
    simp only [Script.evalExpr, h.view.steps]
    exact .pure trivial
  | exception kind args =>
    simp only [Expr.within] at he
    simp only [Script.evalExpr]
    exact (h.evalAll env he).bind fun _ _ => .bind .newException fun _ _ => .pure trivial
  | invoke fn args kwargs =>
    simp only [Expr.within, Bool.and_eq_true] at he
    simp only [Script.evalExpr]
    exact (h.evalExpr env he.1).bind fun _ _ => (h.evalAll env he.2.1).bind fun _ _ =>
      (h.evalNamed env he.2.2).bind fun _ _ => (h.invoke h.handled ..).bind fun _ _ => .see _
  | effect c args =>
    simp only [Expr.within] at he
    simp only [Script.evalExpr]
    exact (h.evalAll env he).bind fun _ _ => .bind .newOrigin fun _ _ =>
      .bind (.ofExcept (P := fun _ => True) fun _ _ => trivial) fun _ _ => .pure trivial

theorem Host.Alike.evalAll (h : host.Alike o host') (env : Env) {es : List Expr}
    (hes : allWithin o.reads es = true) :
    Agrees o (Script.evalAll host env es) (Script.evalAll host' env es) fun _ => True := by
  cases es with
  | nil =>
    simp only [Script.evalAll]
    exact .pure trivial
  | cons e es =>
    simp only [allWithin, Bool.and_eq_true] at hes
    simp only [Script.evalAll]
    exact (h.evalExpr env hes.1).bind fun _ _ => (h.evalAll env hes.2).bind fun _ _ =>
      .pure trivial

theorem Host.Alike.evalEntries (h : host.Alike o host') (env : Env) {es : List (Expr × Expr)}
    (hes : entriesWithin o.reads es = true) :
    Agrees o (Script.evalEntries host env es) (Script.evalEntries host' env es) fun _ => True := by
  cases es with
  | nil =>
    simp only [Script.evalEntries]
    exact .pure trivial
  | cons e es =>
    obtain ⟨k, v⟩ := e
    simp only [entriesWithin, Bool.and_eq_true] at hes
    simp only [Script.evalEntries]
    exact (h.evalExpr env hes.1).bind fun _ _ => (h.evalExpr env hes.2.1).bind fun _ _ =>
      (h.evalEntries env hes.2.2).bind fun _ _ => .pure trivial

theorem Host.Alike.evalNamed (h : host.Alike o host') (env : Env) {es : List (String × Expr)}
    (hes : namedWithin o.reads es = true) :
    Agrees o (Script.evalNamed host env es) (Script.evalNamed host' env es) fun _ => True := by
  cases es with
  | nil =>
    simp only [Script.evalNamed]
    exact .pure trivial
  | cons e es =>
    obtain ⟨k, e⟩ := e
    simp only [namedWithin, Bool.and_eq_true] at hes
    simp only [Script.evalNamed]
    exact (h.evalExpr env hes.1).bind fun _ _ => (h.evalNamed env hes.2).bind fun _ _ =>
      .pure trivial

end

end Expressions

end Rehearsal.Script
