/-!
# Classes of exceptions and of values

The exception classes a script can name, raise and catch, in a hierarchy of single inheritance.
`interrupt` stands outside the ordinary exceptions, and `harness` heads the classes that report
failures of the test bench itself.
-/
namespace Rehearsal

/-- Exception classes. -/
inductive ErrorClass where
  | base | exception | value | key | typed | runtime | lookup | index | arithmetic | zeroDivision
  | assertion | missingAttribute | stop | interrupt | harness | configuration | unmatched | overflow
  | moduleNotFound | recursion | memory
  deriving DecidableEq

namespace ErrorClass

/-- The class as scripts and answers name it. -/
def name : ErrorClass → String
  | base => "BaseException"
  | exception => "Exception"
  | value => "ValueError"
  | key => "KeyError"
  | typed => "TypeError"
  | runtime => "RuntimeError"
  | lookup => "LookupError"
  | index => "IndexError"
  | arithmetic => "ArithmeticError"
  | zeroDivision => "ZeroDivisionError"
  | assertion => "AssertionError"
  | missingAttribute => "AttributeError"
  | stop => "StopIteration"
  | interrupt => "KeyboardInterrupt"
  | harness => "SagaTesterError"
  | configuration => "ConfigurationError"
  | unmatched => "UnmatchedEffectError"
  | overflow => "OverflowError"
  | moduleNotFound => "ModuleNotFoundError"
  | recursion => "RecursionError"
  | memory => "MemoryError"

def all : List ErrorClass :=
  [base, exception, value, key, typed, runtime, lookup, index, arithmetic, zeroDivision, assertion,
    missingAttribute, stop, interrupt, harness, configuration, unmatched, overflow, moduleNotFound,
    recursion, memory]

def ofName? (s : String) : Option ErrorClass := all.find? fun c => c.name == s

/-- The class and everything above it, nearest first. -/
def ancestry : ErrorClass → List ErrorClass
  | base => [base]
  | exception => [exception, base]
  | key => [key, lookup, exception, base]
  | index => [index, lookup, exception, base]
  | zeroDivision => [zeroDivision, arithmetic, exception, base]
  | overflow => [overflow, arithmetic, exception, base]
  | recursion => [recursion, runtime, exception, base]
  | interrupt => [interrupt, base]
  | configuration => [configuration, harness, exception, base]
  | unmatched => [unmatched, harness, exception, base]
  | c => [c, exception, base]

def isSubclass (c d : ErrorClass) : Bool := c.ancestry.contains d

/-- A failure of the test bench, which no scripted task may see. -/
def isHarness (c : ErrorClass) : Bool := c.isSubclass harness

/-- Not an ordinary exception: nothing in the scheduler catches it. -/
def isFatal (c : ErrorClass) : Bool := !c.isSubclass exception

/-- What tested code may raise and the scheduler may throw into a task. -/
def isOrdinary (c : ErrorClass) : Bool := !c.isFatal && !c.isHarness

theorem self_mem_ancestry (c : ErrorClass) : c ∈ c.ancestry := by cases c <;> decide

theorem isSubclass_refl (c : ErrorClass) : c.isSubclass c = true := by cases c <;> decide

/-- What stands above an ancestor stands above the class. -/
theorem ancestry_subset {c d : ErrorClass} (h : d ∈ c.ancestry) : d.ancestry ⊆ c.ancestry := by
  have closed : ∀ d ∈ c.ancestry, ∀ e ∈ d.ancestry, e ∈ c.ancestry := by cases c <;> decide
  exact fun e he => closed d h e he

theorem isSubclass_trans {c d e : ErrorClass} (h : c.isSubclass d = true)
    (h' : d.isSubclass e = true) : c.isSubclass e = true := by
  simp only [isSubclass, List.contains_iff_mem] at *
  exact ancestry_subset h h'

end ErrorClass

/-- The types a script can name. -/
inductive TypeName where
  | object | int | text | float | bool | list | tuple | dict | null | marker | frozenDict
  | error (c : ErrorClass)
  deriving DecidableEq

namespace TypeName

def name : TypeName → String
  | object => "object"
  | int => "int"
  | text => "str"
  | float => "float"
  | bool => "bool"
  | list => "list"
  | tuple => "tuple"
  | dict => "dict"
  | null => "NoneType"
  | marker => "TaskMarker"
  | frozenDict => "frozendict"
  | error c => c.name

def ofName? (s : String) : Option TypeName :=
  match [object, int, text, float, bool, list, tuple, dict, null, marker, frozenDict].find?
      fun t => t.name == s with
  | some t => some t
  | none => (ErrorClass.ofName? s).map error

def isErrorClass : TypeName → Bool
  | error _ => true
  | _ => false

end TypeName

end Rehearsal
