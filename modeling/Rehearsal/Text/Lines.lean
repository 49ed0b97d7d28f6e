/-!
# Blank characters and lines of a text

Text is cut at the characters that separate words and at those that end a line. `lines` cuts a text
after every line end and keeps the ends; the pieces concatenate to the text. `bareLines` is the same
list without the ends. A text that ends a line has no empty last line.
-/
namespace Rehearsal.Text

/-- Characters that separate words: the white space of Unicode together with the four
information separators. -/
def isBlank (c : Char) : Bool :=
  let n := c.toNat
  (9 ≤ n && n ≤ 13) || (28 ≤ n && n ≤ 32) || n == 0x85 || n == 0xa0 || n == 0x1680 ||
    (0x2000 ≤ n && n ≤ 0x200a) || n == 0x2028 || n == 0x2029 || n == 0x202f || n == 0x205f ||
    n == 0x3000

/-- Characters that end a line, each on its own; a carriage return and a line feed together
end one line. -/
def endsLine (c : Char) : Bool :=
  let n := c.toNat
  (10 ≤ n && n ≤ 13) || (28 ≤ n && n ≤ 30) || n == 0x85 || n == 0x2028 || n == 0x2029

/-- Text without the blanks at its two ends. -/
def strip (cs : List Char) : List Char :=
  ((cs.dropWhile isBlank).reverse.dropWhile isBlank).reverse

example : isBlank ' ' && isBlank '\t' && isBlank '\n' && !isBlank 'a' := by decide

/-- The lines of `cs`, each with the characters that end it; `acc` holds the line being read, in
reverse. -/
def linesFrom (acc : List Char) : List Char → List (List Char)
  | [] => if acc.isEmpty then [] else [acc.reverse]
  | '\r' :: '\n' :: rest => ('\n' :: '\r' :: acc).reverse :: linesFrom [] rest
  | c :: rest =>
    if endsLine c then (c :: acc).reverse :: linesFrom [] rest else linesFrom (c :: acc) rest

def lines (cs : List Char) : List (List Char) := linesFrom [] cs

/-- A line without the characters that end it. -/
def dropEnd (line : List Char) : List Char :=
  line.takeWhile fun c => !endsLine c

def bareLines (s : String) : List String :=
  (lines s.toList).map fun line => String.ofList (dropEnd line)

theorem linesFrom_flatten (cs acc : List Char) :
    (linesFrom acc cs).flatten = acc.reverse ++ cs := by
  fun_induction linesFrom acc cs with
  | case1 acc h => simpa using h
  | case2 acc h => simp
  | case3 acc rest ih => simp [ih]
  | case4 acc c rest _ h ih => simp [ih]
  | case5 acc c rest _ h ih => simp [ih]

/-- Nothing is lost between the lines. -/
theorem lines_flatten (cs : List Char) : (lines cs).flatten = cs := by
  simp [lines, linesFrom_flatten]

/-- `s` written in at least `width` columns, blanks on its right. -/
def padRight (width : Nat) (s : String) : String :=
  s ++ String.ofList (List.replicate (width - s.length) ' ')

end Rehearsal.Text
