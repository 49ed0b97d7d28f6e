/-!
# Sorting by insertion

Items are sorted by a test of which of two comes first. The run that the list starts with is taken
as it is, turned round where it falls; every later item is inserted behind those that do not come
after it, at a place found by bisection. This also settles the order of items that the test does
not put into one, such as keys that are undefined numbers.
-/
namespace Rehearsal

variable {α : Type}

/-- The items from the front that follow one another as `follows` says, last first, put before
`taken`, and those left. -/
def takeRun (follows : α → α → Bool) (last : α) (taken : List α) : List α → List α × List α
  | [] => (last :: taken, [])
  | y :: ys => if follows last y then takeRun follows y (last :: taken) ys
    else (last :: taken, y :: ys)

/-- The run a list starts with, sorted, and what follows it. -/
def firstRun (before : α → α → Bool) : List α → List α × List α
  | x :: y :: rest =>
    if before y x then takeRun (fun a b => before b a) y [x] rest
    else
      let (run, left) := takeRun (fun a b => !before b a) y [x] rest
      (run.reverse, left)
  | xs => (xs, [])

/-- The place of `x` among the items from `lo` up to `hi`, behind those it does not come before. -/
def insertionPlace (before : α → α → Bool) (x : α) (xs : List α) (lo hi : Nat) : Nat :=
  if lo < hi then
    let middle := lo + (hi - lo) / 2
    if xs[middle]?.any (before x) then insertionPlace before x xs lo middle
    else insertionPlace before x xs (middle + 1) hi
  else lo
termination_by hi - lo

/-- The sorted items with `x` inserted. -/
def insertInto (before : α → α → Bool) (xs : List α) (x : α) : List α :=
  let place := insertionPlace before x xs 0 xs.length
  xs.take place ++ x :: xs.drop place

/-- The items in the order of `before`; those it does not tell apart keep their order. -/
def sortWith (before : α → α → Bool) (xs : List α) : List α :=
  let (run, rest) := firstRun before xs
  rest.foldl (insertInto before) run

end Rehearsal
