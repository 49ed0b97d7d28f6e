import Mathlib.Algebra.GroupWithZero.Nat
import Rehearsal.Proofs.Engine.Collecting

/-!
# Trees of gathers

A saga can gather in one effect what a whole tree of calls comes to. The tree says which calls there
are, in which order they are asked for, and what is put together from their outputs; when each call
is made it does not say.
-/
namespace Rehearsal

/-- A tree of gathers. At its leaves are calls with the outputs that they have, which are not
generators. A gather of nothing is a tree as well. -/
inductive Assembly where
  | call (call : Call) (output : Value) (plain : ∀ g, output ≠ .generator g)
  | listed (parts : List Assembly)
  | keyed (frozen : Bool) (parts : List (Value × Assembly))

namespace Assembly

theorem sizeOf_entry {parts : List (Value × Assembly)} {e : Value × Assembly} (h : e ∈ parts) :
    sizeOf e.2 < sizeOf parts := by
  obtain ⟨key, part⟩ := e
  have hlt := List.sizeOf_lt_of_mem h
  rw [Prod.mk.sizeOf_spec] at hlt
  dsimp only
  omega

def fold {α : Type} (leaf : Call → Value → α) (list : List α → α)
    (dict : Bool → List (Value × α) → α) :
    Assembly → α
  | call c v _ => leaf c v
  | listed parts => list (parts.map (fold leaf list dict))
  | keyed frozen parts => dict frozen (parts.map fun e => (e.1, fold leaf list dict e.2))
decreasing_by
  · simp_wf
    have hlt := List.sizeOf_lt_of_mem ‹_›
    omega
  · simp_wf
    have hlt := sizeOf_entry ‹_›
    omega

/-- What a saga yields for the tree. -/
def effect : Assembly → Value :=
  fold (fun c _ => .effect (.call c.fn c.args c.kwargs)) (fun es => .effect (.gather (.listed es)))
    fun frozen es => .effect (.gather (.keyed ⟨frozen, es⟩))

/-- The outputs in the shape of the tree. -/
def value : Assembly → Value :=
  fold (fun _ v => v) .list fun _ vs => .dict ⟨false, vs⟩

/-- The calls with their outputs, in the order of the members. -/
def calls : Assembly → List (Call × Value) :=
  fold (fun c v => [(c, v)]) List.flatten fun _ es => (es.map (·.2)).flatten

/-- The number of calls and gathers. -/
def size : Assembly → Nat :=
  fold (fun _ _ => 1) (fun ns => 1 + ns.sum) fun _ es => 1 + (es.map (·.2)).sum

/-- The parts of a gather with the keys of its members. -/
def items : Assembly → List (Value × Assembly)
  | call .. => []
  | listed parts => parts.zipIdx.map fun e => (.int e.2, e.1)
  | keyed _ parts => parts

def collected (keyed : Bool) (entries : List (Value × Value)) : Value :=
  if keyed then .dict ⟨false, entries⟩ else .list (entries.map (·.2))

theorem size_pos (tree : Assembly) : 0 < tree.size := by
  cases tree <;> simp only [size, fold] <;> omega

section Calls

variable (c : Call) (v : Value) (plain : ∀ g, v ≠ .generator g)

theorem effect_call : (call c v plain).effect = .effect (.call c.fn c.args c.kwargs) := by
  simp only [effect, fold]

theorem value_call : (call c v plain).value = v := by simp only [value, fold]

theorem calls_call : (call c v plain).calls = [(c, v)] := by simp only [calls, fold]

end Calls

/-- A tree that is not a call is a gather of its items. -/
theorem call_or_gather (tree : Assembly) :
    (∃ c v plain, tree = .call c v plain) ∨
    ∃ members, tree.effect = .effect (.gather members) ∧
      Machine.memberItems members = tree.items.map (fun e => (e.1, e.2.effect)) ∧
      tree.value = collected (Machine.isKeyed members) (tree.items.map fun e => (e.1, e.2.value)) ∧
      tree.calls = (tree.items.map (·.2)).flatMap calls ∧
      tree.size = 1 + ((tree.items.map (·.2)).map size).sum := by
  cases tree with
  | call c v plain => exact Or.inl ⟨c, v, plain, rfl⟩
  | listed parts =>
    have hparts : (listed parts).items.map (·.2) = parts := by
      rw [items, List.map_map]
      exact List.zipIdx_map_fst ..
    refine Or.inr ⟨.listed (parts.map effect), by simp only [effect, fold], ?_, ?_, ?_, ?_⟩
    · simp only [Machine.memberItems, items, List.zipIdx_map, List.map_map]
      rfl
    · show _ = Value.list (((listed parts).items.map fun e => (e.1, e.2.value)).map (·.2))
      rw [List.map_map, show ((·.2) ∘ fun e : Value × Assembly => (e.1, e.2.value)) =
        value ∘ (·.2) from rfl,
        ← List.map_map, hparts]
      simp only [value, fold]
    · rw [hparts, List.flatMap_def]
      simp only [calls, fold]
    · rw [hparts]
      simp only [size, fold]
  | keyed frozen parts =>
    refine Or.inr ⟨.keyed ⟨frozen, parts.map fun e => (e.1, e.2.effect)⟩, ?_, rfl, ?_, ?_, ?_⟩
    · simp only [effect, fold]
    · simp only [value, fold]
      rfl
    · simp only [calls, fold, items, List.flatMap_def, List.map_map]
      rfl
    · simp only [size, fold, items, List.map_map]
      rfl

end Assembly

/-! ### Planned trees -/

namespace World

variable {σ : Type}

/-- Asked for these calls one after the other, the planner gives each its output and a wait, and is
then in a state with the property. No function is invoked. -/
def Plans (w : World σ) (after : σ → Prop) : List (Call × Value) → σ → Prop
  | [], s => after s
  | (call, output) :: rest, s => ∀ view, ∃ wait s',
      w.plan view call false s = (.ok ⟨false, output, none, wait⟩, s') ∧ w.Plans after rest s'

def Echoes (w : World σ) (g : Nat) (s : σ) : Prop :=
  ∀ view v, ∃ s', w.resume view g (.send v) s = (.returned v, s')

/-- The generator `g` yields the tree, whose calls are planned, and returns the answer. -/
def Gathers (w : World σ) (g : Nat) (tree : Assembly) (s : σ) : Prop :=
  ∀ view, ∃ s', w.resume view g (.send .null) s = (.yielded tree.effect, s') ∧
    w.Plans (w.Echoes g) tree.calls s'

end World

end Rehearsal
