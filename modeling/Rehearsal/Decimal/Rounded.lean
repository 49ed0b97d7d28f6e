import Rehearsal.Decimal.Spelling

/-!
# Decimals of a given precision

A finite float is rounded to so many places behind the point, or to so many digits altogether.
Rounding is exact and goes to the nearest decimal, a tie to the one with an even last digit.
-/
namespace Rehearsal.Decimal

/-- The whole number nearest to `n / d`, the even one of two. -/
def roundQuotient (n d : Nat) : Nat :=
  let q := n / d
  let rest := 2 * (n % d)
  if rest > d || (rest == d && q % 2 == 1) then q + 1 else q

/-- The magnitude `m · 2^q` as a quotient of whole numbers. -/
def Binary.quotient (b : Binary) : Nat × Nat :=
  (b.mantissa * Nat.pow 2 b.exponent.toNat, Nat.pow 2 (-b.exponent).toNat)

/-- The magnitude of `b` in units of `10^(-places)`, rounded. -/
def Binary.unitsAt (b : Binary) (places : Int) : Nat :=
  let (n, d) := b.quotient
  roundQuotient (n * Nat.pow 10 places.toNat) (d * Nat.pow 10 (-places).toNat)

/-- The magnitude of `b` rounded to `count` digits, of which the first is not zero unless all
are. -/
def Binary.rounded (b : Binary) (count : Nat) : Digits :=
  if b.mantissa == 0 then ⟨List.replicate count 0, 1⟩
  else
    let (n, d) := b.quotient
    let point := magnitude n d
    let ds := digitsOf (b.unitsAt (Int.ofNat count - point))
    if ds.length > count then ⟨ds.take count, point + 1⟩ else ⟨ds, point⟩

/-- Digits behind a point. The point itself is kept on its own where `keepPoint` says so. -/
def behindPoint (keepPoint : Bool) (ds : String) : String :=
  if ds.isEmpty && !keepPoint then "" else "." ++ ds

/-- With `places` digits behind the point. -/
def Binary.fixedText (b : Binary) (places : Nat) (keepPoint : Bool) : String :=
  let ds := digitsOf (b.unitsAt (Int.ofNat places))
  let ds := List.replicate (places + 1 - ds.length) 0 ++ ds
  digitText (ds.take (ds.length - places)) ++
    behindPoint keepPoint (digitText (ds.drop (ds.length - places)))

/-- One digit, those behind the point, and an exponent. -/
def Digits.exponentText (d : Digits) (keepPoint : Bool) : String :=
  digitText (d.digits.take 1) ++ behindPoint keepPoint (digitText (d.digits.drop 1)) ++
    Decimal.exponentText 2 (d.point - 1)

/-- Without an exponent. -/
def Digits.positionalText (d : Digits) (keepPoint : Bool) : String :=
  if d.point ≤ 0 then "0." ++ zeros (-d.point).toNat ++ digitText d.digits
  else
    let whole := d.point.toNat
    digitText (d.digits.take whole) ++ zeros (whole - d.digits.length) ++
      behindPoint keepPoint (digitText (d.digits.drop whole))

/-- How a float is written with a given precision. -/
inductive Style where
  | fixed
  | exponent
  /-- With at most as many digits as the precision says: without an exponent from `0.0001` up to
  numbers of that many digits. -/
  | general
  deriving DecidableEq

/-- The magnitude of `b`. The alternate form keeps the point, and the zeros at the end of general
notation. -/
def Binary.text (b : Binary) (form : Style) (precision : Nat) (alternate : Bool) : String :=
  match form with
  | .fixed => b.fixedText precision alternate
  | .exponent => (b.rounded (precision + 1)).exponentText alternate
  | .general =>
    let count := max precision 1
    let d := b.rounded count
    let kept := if alternate then d
      else { d with digits := (d.digits.reverse.dropWhile (· == 0)).reverse }
    if -3 ≤ d.point && d.point ≤ Int.ofNat count then kept.positionalText alternate
    else kept.exponentText alternate

/-- A float with a sign in front if it is negative. -/
def precisionText (x : Float) (form : Style) (precision : Nat) (alternate : Bool) : String :=
  match Binary.ofFloat? x with
  | some b => (if b.negative then "-" else "") ++ b.text form precision alternate
  | none => Spelling.float.text x

end Rehearsal.Decimal
