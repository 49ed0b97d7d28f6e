import Rehearsal.Diff.Matching
import Rehearsal.Value.Layout

/-!
# Unified differences

The lines that two texts differ in, with three lines of what they share around every difference.

The difference of two values is that of their layouts.
-/
namespace Rehearsal.Diff

/-- A stretch of the alignment: the items `left .. leftEnd - 1` of the first sequence stand
against `right .. rightEnd - 1` of the second, and are the same if `same`. -/
structure Edit where
  same : Bool
  left : Nat
  leftEnd : Nat
  right : Nat
  rightEnd : Nat

/-- The stretches between and within the blocks, from the positions `left` and `right` on. -/
def edits (left right leftEnd rightEnd : Nat) : List Block → List Edit
  | [] =>
    if left < leftEnd || right < rightEnd then [⟨false, left, leftEnd, right, rightEnd⟩] else []
  | b :: rest =>
    (if left < b.left || right < b.right then [⟨false, left, b.left, right, b.right⟩] else []) ++
      ⟨true, b.left, b.left + b.size, b.right, b.right + b.size⟩ ::
      edits (b.left + b.size) (b.right + b.size) leftEnd rightEnd rest

/-- How many common lines surround a difference. -/
def context : Nat := 3

/-- Only the last lines of a common stretch. -/
def Edit.ending (e : Edit) : Edit :=
  { e with left := max e.left (e.leftEnd - context), right := max e.right (e.rightEnd - context) }

/-- Only the first lines of a common stretch. -/
def Edit.starting (e : Edit) : Edit :=
  { e with leftEnd := min e.leftEnd (e.left + context)
           rightEnd := min e.rightEnd (e.right + context) }

/-- The first and the last stretch cut down to their context. -/
def trimEnds : List Edit → List Edit
  | [] => []
  | e :: rest =>
    let es := (if e.same then e.ending else e) :: rest
    match es.reverse with
    | last :: before => ((if last.same then last.starting else last) :: before).reverse
    | [] => []

/-- Stretches gathered into groups: a long common stretch ends one and begins the next. -/
def groups (current : List Edit) : List Edit → List (List Edit)
  | [] => [current.reverse]
  | e :: rest =>
    if e.same && e.leftEnd - e.left > 2 * context then
      (e.starting :: current).reverse :: groups [e.ending] rest
    else groups (e :: current) rest

/-- A group shows a difference. -/
def differs (group : List Edit) : Bool := group.any fun e => !e.same

/-- A range of lines by its first line and its length; an empty range names the line before
it. -/
def rangeText (first last : Nat) : String :=
  let size := last - first
  if size == 1 then toString (first + 1)
  else if size == 0 then toString first ++ ",0"
  else toString (first + 1) ++ "," ++ toString size

def slice (xs : List String) (first last : Nat) : List String := (xs.drop first).take (last - first)

def Edit.lines (xs ys : List String) (e : Edit) : List String :=
  if e.same then (slice xs e.left e.leftEnd).map (" " ++ ·)
  else (slice xs e.left e.leftEnd).map ("-" ++ ·) ++ (slice ys e.right e.rightEnd).map ("+" ++ ·)

def hunk (xs ys : List String) (group : List Edit) : List String :=
  match group, group.getLast? with
  | first :: _, some last =>
    ("@@ -" ++ rangeText first.left last.leftEnd ++ " +" ++ rangeText first.right last.rightEnd ++
      " @@") :: group.flatMap (Edit.lines xs ys)
  | _, _ => []

/-- The unified difference of two texts given by their lines; empty if there is none. -/
def unified (fromName toName : String) (xs ys : List String) : List String :=
  let es := trimEnds (edits 0 0 xs.length ys.length (blocks xs ys))
  let hunks := ((groups [] es).filter differs).flatMap (hunk xs ys)
  if hunks.isEmpty then [] else ("--- " ++ fromName) :: ("+++ " ++ toName) :: hunks

end Rehearsal.Diff

namespace Rehearsal

/-- The difference of what was expected and what was received, as it stands in messages. -/
def diffValues (expected received : Value) : String :=
  let diff := Diff.unified "expected" "received"
    (Text.bareLines expected.layout) (Text.bareLines received.layout)
  if diff.isEmpty then "(no difference)" else "\n".intercalate diff

end Rehearsal
