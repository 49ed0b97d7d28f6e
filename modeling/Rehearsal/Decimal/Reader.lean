import Rehearsal.Text.Lines
import Rehearsal.Decimal.Binary

/-!
# Reading numbers

Whole numbers and floats from their texts. Blanks around a number are skipped, a sign may stand
in front, and single underscores may stand between digits. The digits are the decimal digits of all
scripts. Whole numbers are written and read back only up to a number of digits.
-/
namespace Rehearsal.Text

/-- The zeros of all scripts beyond the first, by code point. -/
def zeros : List Nat :=
  [0x660, 0x6f0, 0x7c0, 0x966, 0x9e6, 0xa66, 0xae6, 0xb66, 0xbe6, 0xc66, 0xce6, 0xd66, 0xde6,
    0xe50, 0xed0, 0xf20, 0x1040, 0x1090, 0x17e0, 0x1810, 0x1946, 0x19d0, 0x1a80, 0x1a90, 0x1b50,
    0x1bb0, 0x1c40, 0x1c50, 0xa620, 0xa8d0, 0xa900, 0xa9d0, 0xa9f0, 0xaa50, 0xabf0, 0xff10,
    0x104a0, 0x10d30, 0x11066, 0x110f0, 0x11136, 0x111d0, 0x112f0, 0x11450, 0x114d0, 0x11650,
    0x116c0, 0x11730, 0x118e0, 0x11950, 0x11c50, 0x11d50, 0x11da0, 0x16a60, 0x16ac0, 0x16b50,
    0x1d7ce, 0x1d7d8, 0x1d7e2, 0x1d7ec, 0x1d7f6, 0x1e140, 0x1e2f0, 0x1e950, 0x1fbf0]

/-- The value of a decimal digit. -/
def digitValue? (c : Char) : Option Nat :=
  let n := c.toNat
  if n < 0x80 then (if 48 ≤ n && n ≤ 57 then some (n - 48) else none)
  else (zeros.find? fun z => z ≤ n && n < z + 10).map fun z => n - z

def isDecimal (c : Char) : Bool := (digitValue? c).isSome

example : digitValue? '7' = some 7 ∧ digitValue? '٣' = some 3 ∧ digitValue? 'a' = none := by decide

end Rehearsal.Text

namespace Rehearsal.Decimal

open Rehearsal.Text

/-- The greatest number of digits that is converted. -/
def digitLimit : Nat := 4300

/-- What is said of a number that is too long to be written, or to be read from `size` digits. -/
def limitMessage (size : Option Nat) : String :=
  let measured := match size with
    | some n => ": value has " ++ toString n ++ " digits"
    | none => ""
  "Exceeds the limit (" ++ toString digitLimit ++ " digits) for integer string conversion" ++
    measured ++ "; use sys.set_int_max_str_digits() to increase the limit"

/-- The value of a digit in a base up to 36: a decimal digit, or a letter in either case. -/
def digitIn? (base : Nat) (c : Char) : Option Nat :=
  let d := match digitValue? c with
    | some d => some d
    | none => if c.isAlpha then some (c.toLower.toNat - 87) else none
  d.filter fun d => d < base

/-- Reads digits in a base, with single underscores between them. The value so far is `acc`, and
`afterDigit` tells whether the last character was a digit. Yields the value, the number of digits
and what follows. -/
def digitRunIn (base acc count : Nat) (afterDigit : Bool) :
    List Char → Option (Nat × Nat × List Char)
  | [] => if afterDigit then some (acc, count, []) else none
  | c :: rest =>
    match digitIn? base c with
    | some d => digitRunIn base (acc * base + d) (count + 1) true rest
    | none =>
      if c == '_' && afterDigit then digitRunIn base acc count false rest
      else if afterDigit then some (acc, count, c :: rest) else none

/-- Reads decimal digits. -/
def digitRun (acc count : Nat) (afterDigit : Bool) : List Char → Option (Nat × Nat × List Char) :=
  digitRunIn 10 acc count afterDigit

/-- The sign in front of `cs`, if any, and the rest. -/
def takeSign : List Char → Bool × List Char
  | '-' :: rest => (true, rest)
  | '+' :: rest => (false, rest)
  | cs => (false, cs)

/-- A number with its sign. -/
def withSign (negative : Bool) (n : Nat) : Int := if negative then -Int.ofNat n else Int.ofNat n

/-- A whole number in decimal. -/
def readInt? (s : String) : Option Int :=
  let (negative, body) := takeSign (strip s.toList)
  match digitRun 0 0 false body with
  | some (n, _, []) => some (withSign negative n)
  | _ => none

/-- How many digits a text starts with; none if it starts with no number. -/
def digitCount (s : String) : Option Nat :=
  (digitRun 0 0 false (takeSign (strip s.toList)).2).map fun r => r.2.1

/-- The mark of a base, if one stands in front of `cs`, and the rest. -/
def takeMark : List Char → Option Nat × List Char
  | '0' :: c :: rest =>
    let c := c.toLower
    if c == 'x' then (some 16, rest) else if c == 'o' then (some 8, rest)
    else if c == 'b' then (some 2, rest) else (none, '0' :: c :: rest)
  | cs => (none, cs)

/-- A whole number in a base. The mark of the base may stand in front; base zero takes the base
from the mark and is ten without one, where nothing but zero may start with a zero. -/
def readIntIn? (base : Nat) (s : String) : Option Int :=
  let (negative, body) := takeSign (strip s.toList)
  let (mark, rest) := takeMark body
  let marked := mark.isSome && (base == 0 || mark == some base)
  let actual := if base == 0 then mark.getD 10 else base
  let digits := if !marked then body else match rest with
    | '_' :: rest => rest
    | rest => rest
  match digitRunIn actual 0 0 false digits with
  | some (n, _, []) =>
    if base == 0 && !marked && body.head? == some '0' && n != 0 then none
    else some (withSign negative n)
  | _ => none

/-- The float nearest to `m · 10^e`. -/
def scientific (m : Nat) (e : Int) : Float :=
  let size := Int.ofNat (Nat.toDigits 10 m).length
  if m == 0 || size + e < -400 then 0.0
  else if size + e > 400 then 1.0 / 0.0
  else if e < 0 then Float.ofScientific m true e.natAbs else Float.ofScientific m false e.natAbs

/-- Digits that may be absent altogether. -/
def optionalRun (acc : Nat) (cs : List Char) : Option (Nat × Nat × List Char) :=
  match cs with
  | c :: _ => if isDecimal c then digitRun acc 0 false cs else some (acc, 0, cs)
  | [] => some (acc, 0, [])

/-- The exponent part, which must end the text. -/
def readExponent? : List Char → Option Int
  | [] => some 0
  | c :: rest =>
    if c == 'e' || c == 'E' then
      let (negative, body) := takeSign rest
      match digitRun 0 0 false body with
      | some (n, _, []) => some (withSign negative n)
      | _ => none
    else none

/-- A float in positional or scientific notation, or one of the words for the values that are no
numbers, in any case. -/
def readFloat? (s : String) : Option Float :=
  let (negative, body) := takeSign (strip s.toList)
  let signed := fun x : Float => if negative then -x else x
  let word := String.ofList (body.map Char.toLower)
  if word == "inf" || word == "infinity" then some (signed (1.0 / 0.0))
  else if word == "nan" then some (0.0 / 0.0)
  else do
    let (whole, wholeCount, rest) ← optionalRun 0 body
    let (m, places, rest) ← match rest with
      | '.' :: rest => optionalRun whole rest
      | _ => some (whole, 0, rest)
    if wholeCount + places == 0 then none
    else
      let e ← readExponent? rest
      some (signed (scientific m (e - Int.ofNat places)))

end Rehearsal.Decimal
