/-!
# Matching blocks of two sequences

Two sequences are aligned by their longest common block, the earliest in the first sequence and
then in the second among blocks of one length, and recursively by what lies before and behind it.
-/
namespace Rehearsal.Diff

variable {α : Type} [BEq α]

/-- `size` items of the first sequence from `left` on that equal those of the second from `right`
on. -/
structure Block where
  left : Nat
  right : Nat
  size : Nat
  deriving DecidableEq

def commonPrefixLength : List α → List α → Nat
  | x :: xs, y :: ys => if x == y then commonPrefixLength xs ys + 1 else 0
  | _, _ => 0

/-- The better of two blocks: the longer one, or else the first. -/
def Block.better (a b : Block) : Block := if a.size < b.size then b else a

/-- The best block that starts at the head of `xs`, which stands at `left`. -/
def longestAt (left : Nat) (xs : List α) (right : Nat) : List α → Block
  | [] => ⟨left, right, 0⟩
  | y :: ys =>
    (⟨left, right, commonPrefixLength xs (y :: ys)⟩ : Block).better
      (longestAt left xs (right + 1) ys)

/-- The best block of the two sequences. -/
def longestFrom (left : Nat) (ys : List α) : List α → Block
  | [] => ⟨left, 0, 0⟩
  | x :: xs => (longestAt left (x :: xs) 0 ys).better (longestFrom (left + 1) ys xs)

def longest (xs ys : List α) : Block := longestFrom 0 ys xs

/-- The blocks of the alignment, from left to right; the first items stand at `left` and
`right`. -/
def blocksFrom (left right : Nat) (xs ys : List α) : List Block :=
  let b := longest xs ys
  if _h : 0 < b.size ∧ b.left < xs.length then
    blocksFrom left right (xs.take b.left) (ys.take b.right) ++
      ⟨left + b.left, right + b.right, b.size⟩ ::
      blocksFrom (left + b.left + b.size) (right + b.right + b.size)
        (xs.drop (b.left + b.size)) (ys.drop (b.right + b.size))
  else []
termination_by xs.length
decreasing_by
  · simp only [List.length_take, b] at *; omega
  · simp only [List.length_drop, b] at *; omega

/-- Adjacent blocks made one. -/
def mergeAdjacent : List Block → List Block
  | [] => []
  | b :: rest =>
    match mergeAdjacent rest with
    | c :: cs =>
      if b.left + b.size == c.left && b.right + b.size == c.right then
        ⟨b.left, b.right, b.size + c.size⟩ :: cs
      else b :: c :: cs
    | [] => [b]

def blocks (xs ys : List α) : List Block := mergeAdjacent (blocksFrom 0 0 xs ys)

end Rehearsal.Diff
