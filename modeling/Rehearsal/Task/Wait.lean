/-!
# Wait states

How soon a task may run. `now` and the symbolic tiers of blocked tasks come first and together,
numeric ticks follow by value, and `last` comes after everything else. `key` maps the states to
pairs of numbers whose lexicographic order is that order, and `Wait.le` is a total preorder.
-/
namespace Rehearsal

/-- Symbolic tiers of blocked tasks. -/
inductive WaitTier where
  | generator | race | all | children
  deriving DecidableEq

namespace WaitTier

def text : WaitTier → String
  | generator => "generator-wait"
  | race => "race-wait"
  | all => "all-wait"
  | children => "children-wait"

/-- The member name a literal of the tier shows. -/
def label : WaitTier → String
  | generator => "GENERATOR"
  | race => "RACE"
  | all => "ALL"
  | children => "CHILDREN"

def ofText? (s : String) : Option WaitTier :=
  [generator, race, all, children].find? fun t => t.text == s

end WaitTier

/-- The wait state of a task. -/
inductive Wait where
  | now
  | tick (n : Int)
  | last
  | tier (t : WaitTier)
  deriving DecidableEq

namespace Wait

/-- Whether the state sorts before every tick. -/
def isNow : Wait → Bool
  | now | tier _ => true
  | tick _ | last => false

/-- The rank of the state, and the tick within its rank. -/
def key : Wait → Nat × Int
  | now | tier _ => (0, 0)
  | tick n => (1, n)
  | last => (2, 0)

def le (a b : Wait) : Bool :=
  a.key.1 < b.key.1 || (a.key.1 == b.key.1 && a.key.2 ≤ b.key.2)

/-- `-1`, `0` or `1` as `a` runs before, together with, or after `b`. -/
def compare (a b : Wait) : Int :=
  if a.key = b.key then 0 else if a.le b then -1 else 1

/-- The spelling of diagnostics. -/
def render : Wait → String
  | now => "false"
  | last => "true"
  | tick n => toString n
  | tier t => t.text

theorem le_refl (a : Wait) : a.le a = true := by simp [le]

theorem le_total (a b : Wait) : a.le b = true ∨ b.le a = true := by
  simp only [le, Bool.or_eq_true, Bool.and_eq_true, decide_eq_true_eq, beq_iff_eq]
  omega

theorem le_trans {a b c : Wait} (h : a.le b = true) (h' : b.le c = true) : a.le c = true := by
  simp only [le, Bool.or_eq_true, Bool.and_eq_true, decide_eq_true_eq, beq_iff_eq] at *
  omega

end Wait

end Rehearsal
