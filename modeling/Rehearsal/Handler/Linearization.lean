import Rehearsal.Value.Order

/-!
# Linearization of class hierarchies, and handlers by class

A class with several bases is searched in one order: itself first, then its ancestors so that every
class comes before its bases and bases come in the order they were named. `merge` interleaves the
orders of the bases accordingly, and there may be no such order.

A class without a handler of its own has that of the nearest class in its order.
-/
namespace Rehearsal.Linearization

/-- Whether `c` stands behind the head of any of the lists. -/
def inTail (c : String) (lists : List (List String)) : Bool :=
  lists.any fun l => l.tail.contains c

/-- The first head that stands behind no other. -/
def candidate? (lists : List (List String)) : Option String :=
  (lists.filterMap List.head?).find? fun c => !inTail c lists

/-- The lists without `c` at their heads. -/
def dropHead (c : String) (lists : List (List String)) : List (List String) :=
  lists.map fun l => if l.head? == some c then l.tail else l

/-- Interleaves the lists, each kept in its order, taking at most `fuel` classes. -/
def mergeTo : Nat → List (List String) → Option (List String)
  | 0, lists => if lists.all List.isEmpty then some [] else none
  | fuel + 1, lists =>
    if lists.all List.isEmpty then some []
    else match candidate? lists with
      | some c => (mergeTo fuel (dropHead c lists)).map (c :: ·)
      | none => none

/-- Interleaves the lists, each kept in its order. -/
def merge (lists : List (List String)) : Option (List String) :=
  mergeTo lists.flatten.length lists

/-- The search order of each class known so far. -/
abbrev Orders := List (String × List String)

/-- The order of a class alone, if it is not known. -/
def orderOf (known : Orders) (c : String) : List String := (known.lookup c).getD [c]

/-- The search order of a class with the given bases. -/
def order? (known : Orders) (name : String) (bases : List String) : Option (List String) :=
  (merge (bases.map (orderOf known) ++ [bases])).map (name :: ·)

/-- The refusal of bases that have no common order. -/
def refusal (bases : List String) : Refusal :=
  .typed ("Cannot create a consistent method resolution\norder (MRO) for bases " ++
    ", ".intercalate bases)

end Rehearsal.Linearization

namespace Rehearsal

/-- Handlers by class; an entry may be empty. -/
structure HandlerTable (α : Type) where
  entries : List (String × Option α)

namespace HandlerTable

variable {α : Type}

def empty : HandlerTable α := ⟨[]⟩

/-- Registers a handler in the place of an earlier one. -/
def register (t : HandlerTable α) (c : String) (handler : Option α) : HandlerTable α :=
  ⟨(c, handler) :: t.entries.filter fun e => e.1 != c⟩

/-- The handler registered for a class itself. -/
def own? (t : HandlerTable α) (c : String) : Option α := (t.entries.lookup c).join

/-- The handler of a class whose search order is `order`. -/
def lookup? (t : HandlerTable α) (order : List String) : Option α := order.findSome? t.own?

end HandlerTable

end Rehearsal
