import Rehearsal.Decimal.Binary

/-!
# Shortest decimals

The decimal with the fewest digits that rounds to a given binary64 value, and of those with as
few digits the nearest. Digit counts 1 to 17 are tried in turn; for each, the value's two
neighbours on that decimal grid are tested in exact arithmetic.
-/
namespace Rehearsal.Decimal

/-- The decimal `0.d₁d₂…dₙ · 10^point`, with `digits = d₁d₂…dₙ` and `d₁ ≠ 0` unless it is zero. -/
structure Digits where
  digits : List Nat
  point : Int

/-- The decimal digits of `n`, most significant first. -/
def digitsOf (n : Nat) : List Nat := (Nat.toDigits 10 n).map fun c => c.toNat - 48

/-- The positive value `num / den` with the ends of the interval of reals that round to it;
`closed` says whether the ends themselves do. All three have the denominator `den`. -/
structure Interval where
  value : Nat
  low : Nat
  high : Nat
  den : Nat
  closed : Bool

/-- The rounding interval of `m · 2^q` in units of `2^(q-2)`. Below a power of two the gap to the
next float is half as wide. -/
def Interval.around (m : Nat) (q : Int) : Interval :=
  let edge := m == Nat.pow 2 52 && q > -1074
  let up := Nat.pow 2 (q - 2).toNat
  { value := 4 * m * up
    low := (4 * m - if edge then 1 else 2) * up
    high := (4 * m + 2) * up
    den := Nat.pow 2 (2 - q).toNat
    closed := m % 2 == 0 }

/-- Whether `n / d` rounds to the value of the interval. -/
def Interval.holds (i : Interval) (n d : Nat) : Bool :=
  let x := n * i.den
  let low := i.low * d
  let high := i.high * d
  if i.closed then low ≤ x && x ≤ high else low < x && x < high

/-- The least `k` with `n / d < 10^k`, for a positive `n`. -/
def magnitude (n d : Nat) : Int :=
  if d ≤ n then Int.ofNat (Nat.toDigits 10 (n / d)).length
  else
    let j := (Nat.toDigits 10 (d / n)).length
    if n * Nat.pow 10 (j - 1) ≥ d then 2 - Int.ofNat j else 1 - Int.ofNat j

/-- The least `k` with `value < 10^k`. -/
def Interval.magnitude (i : Interval) : Int := Decimal.magnitude i.value i.den

/-- The best decimal of `n` digits that rounds to the value, as a whole number of units
`10^(magnitude - n)`. -/
def Interval.candidate (i : Interval) (k : Int) (n : Nat) : Option Nat :=
  let unit := k - Int.ofNat n
  let up := Nat.pow 10 unit.toNat
  let down := Nat.pow 10 (-unit).toNat
  let below := i.value * down / (i.den * up)
  let distLow := i.value * down - below * up * i.den
  let distHigh := (below + 1) * up * i.den - i.value * down
  let lowFits := below > 0 && i.holds (below * up) down
  let highFits := i.holds ((below + 1) * up) down
  if lowFits && highFits then
    if distLow < distHigh then some below
    else if distHigh < distLow then some (below + 1)
    else if below % 2 == 0 then some below else some (below + 1)
  else if lowFits then some below
  else if highFits then some (below + 1)
  else none

/-- The shortest decimal of the interval with at least `n` digits, trying `fuel` digit counts. -/
def Interval.shortest (i : Interval) (k : Int) : Nat → Nat → Digits
  | 0, _ => ⟨[], 0⟩
  | fuel + 1, n =>
    match i.candidate k n with
    | some d =>
      let ds := digitsOf d
      ⟨(ds.reverse.dropWhile (· == 0)).reverse, k + (Int.ofNat ds.length - Int.ofNat n)⟩
    | none => i.shortest k fuel (n + 1)

/-- The shortest decimal that rounds to the magnitude of `b`. -/
def shortest (b : Binary) : Digits :=
  if b.mantissa == 0 then ⟨[0], 1⟩
  else
    let i := Interval.around b.mantissa b.exponent
    i.shortest i.magnitude 17 1

end Rehearsal.Decimal
