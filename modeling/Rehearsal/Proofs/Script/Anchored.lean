import Rehearsal.Proofs.Script.Outlook

/-!
# Bare raises

A bare raise means the exception that is being handled. Where it stands in a handler of its own
function, that is the exception the handler has caught; anywhere else it depends on what is being
handled around the function. Bodies are anchored if all their bare raises stand in handlers. What is
left to do of such a body stays anchored, and so what its bare raises mean can be told without
looking around it.
-/
namespace Rehearsal.Script

/-! ### Anchored bodies -/

mutual

/-- All bare raises stand in handlers. -/
def Stmt.anchored : Stmt → Bool
  | .reraise => false
  | .cond _ yes no => allAnchored yes && allAnchored no
  | .loop _ body | .each _ _ body => allAnchored body
  | .guarded body _ none => allAnchored body
  | .guarded body _ (some final) => allAnchored body && allAnchored final
  | _ => true

def allAnchored : List Stmt → Bool
  | [] => true
  | s :: rest => s.anchored && allAnchored rest

end

/-- The statements are anchored, or run while an exception is being handled in their own function.
-/
def anchoredIn (ks : List Kont) (body : List Stmt) : Bool :=
  (currentException? ks).isSome || allAnchored body

/-- What is left to do before `ks` is anchored. -/
def Kont.anchored (ks : List Kont) : Kont → Bool
  | .seq body | .loop _ body | .each _ _ _ body | .drawing _ _ body => anchoredIn ks body
  | .guarded _ final | .handling _ final => anchoredIn ks (final.getD [])
  | .closing _ | .receive _ | .delegating _ _ | .supplying _ _ _ _ => true

def kontsAnchored : List Kont → Bool
  | [] => true
  | k :: ks => k.anchored ks && kontsAnchored ks

def GeneratorState.anchored : GeneratorState → Bool
  | .fresh _ body => allAnchored body
  | .suspended _ ks => kontsAnchored ks
  | .running | .finished => true

/-- What is left to do of every generator is anchored. -/
def Memory.Anchored (mem : Memory) : Prop :=
  ∀ (g : Nat) (state : GeneratorState), mem.generators[g]? = some state → state.anchored = true

/-- The bodies of all functions are anchored. -/
def Program.Anchored (p : Program) : Prop := ∀ d ∈ p.declarations, allAnchored d.body = true

/-! ### Anchored code does not look around -/

def Outlook.inward (around : Bool) : Outlook := ⟨fun _ => true, around⟩

section Inward

variable {around : Bool}

mutual

theorem Expr.within_inward (e : Expr) : e.within (Outlook.inward around).reads = true := by
  cases e with
  | const | literal | var | shared | steps => rfl
  | list es | tuple es | exception _ es | effect _ es => exact allWithin_inward es
  | dict es => exact entriesWithin_inward es
  | unary op e => exact e.within_inward
  | binary op a b | both a b | either a b =>
    simp only [Expr.within, a.within_inward, b.within_inward, Bool.and_self]
  | attr e name =>
    rw [Expr.within, e.within_inward]
    rfl
  | invoke fn args kwargs =>
    simp only [Expr.within, fn.within_inward, allWithin_inward args,
      namedWithin_inward kwargs, Bool.and_self]

theorem allWithin_inward (es : List Expr) : allWithin (Outlook.inward around).reads es = true := by
  cases es with
  | nil => rfl
  | cons e es => simp only [allWithin, e.within_inward, allWithin_inward es, Bool.and_self]

theorem entriesWithin_inward (es : List (Expr × Expr)) :
    entriesWithin (Outlook.inward around).reads es = true := by
  cases es with
  | nil => rfl
  | cons e es =>
    obtain ⟨k, v⟩ := e
    simp only [entriesWithin, k.within_inward, v.within_inward,
      entriesWithin_inward es, Bool.and_self]

theorem namedWithin_inward (es : List (String × Expr)) :
    namedWithin (Outlook.inward around).reads es = true := by
  cases es with
  | nil => rfl
  | cons e es =>
    obtain ⟨name, e⟩ := e
    simp only [namedWithin, e.within_inward, namedWithin_inward es, Bool.and_self]

end

end Inward

mutual

/-- Statements are anchored where they may not look around. -/
theorem Stmt.within_inward {around : Bool} (s : Stmt) :
    s.within (.inward around) = (around || s.anchored) := by
  cases s with
  | reraise => exact (Bool.or_false around).symm
  | cond c yes no =>
    rw [Stmt.within, Expr.within_inward, bodyWithin_inward, bodyWithin_inward,
      Stmt.anchored, Bool.true_and,
      Bool.or_and_distrib_left]
  | loop c body | each _ c body =>
    rw [Stmt.within, Expr.within_inward, bodyWithin_inward, Stmt.anchored, Bool.true_and]
  | guarded body handlers final =>
    cases final with
    | none =>
      rw [Stmt.within, bodyWithin_inward, handlersWithin_inward, Stmt.anchored, Bool.and_true]
    | some final =>
      rw [Stmt.within, bodyWithin_inward, handlersWithin_inward, bodyWithin_inward,
        Stmt.anchored, Bool.true_and,
        Bool.or_and_distrib_left]
  | _ => simp only [Stmt.within, Stmt.anchored, Expr.within_inward, Bool.and_self, Bool.or_true]

theorem bodyWithin_inward {around : Bool} (body : List Stmt) :
    bodyWithin (.inward around) body = (around || allAnchored body) := by
  cases body with
  | nil => exact (Bool.or_true around).symm
  | cons s rest =>
    rw [bodyWithin, s.within_inward, bodyWithin_inward rest, allAnchored, Bool.or_and_distrib_left]

/-- In a handler a bare raise does not look around. -/
theorem handlersWithin_inward {around : Bool} (handlers : List Handler) :
    handlersWithin (.inward around) handlers = true := by
  cases handlers with
  | nil => rfl
  | cons h rest =>
    obtain ⟨classes, name, body⟩ := h
    have hhandling : (Outlook.inward around).handling = .inward true := rfl
    rw [handlersWithin, hhandling, bodyWithin_inward body, handlersWithin_inward rest,
      Bool.true_or, Bool.and_self]

end

theorem Kont.within_inward (ks : List Kont) (k : Kont) :
    k.within ((Outlook.inward false).before ks) = k.anchored ks := by
  have hbody : ∀ body, bodyWithin ((Outlook.inward false).before ks) body = anchoredIn ks body :=
    fun body => bodyWithin_inward body
  have hexpr : ∀ e : Expr, e.within ((Outlook.inward false).before ks).reads =
    true := Expr.within_inward
  have hhandlers : ∀ handlers, handlersWithin ((Outlook.inward false).before ks) handlers = true :=
    handlersWithin_inward
  cases k <;> simp only [Kont.within, Kont.anchored, hbody, hexpr, hhandlers, Bool.true_and]

theorem kontsWithin_inward (ks : List Kont) :
    kontsWithin (.inward false) ks = kontsAnchored ks := by
  induction ks with
  | nil => rfl
  | cons k ks ih => rw [kontsWithin, kontsAnchored, Kont.within_inward, ih]

theorem GeneratorState.within_inward (state : GeneratorState) :
    state.within (.inward false) = state.anchored := by
  cases state with
  | fresh env body => exact bodyWithin_inward body
  | suspended env ks => exact kontsWithin_inward ks
  | running | finished => rfl

theorem Memory.within_inward {mem : Memory} : mem.Within (.inward false) ↔ mem.Anchored := by
  simp only [Memory.Within, Memory.Anchored, GeneratorState.within_inward]

theorem Program.within_inward {p : Program} : p.Within (.inward false) ↔ p.Anchored := by
  simp only [Program.Within, Program.Anchored, bodyWithin_inward, Bool.false_or]

end Rehearsal.Script
