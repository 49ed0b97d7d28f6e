/-!
# Binary64 values as exact numbers

A finite binary64 value is `±m · 2^q`. `Binary.ofFloat` reads the sign, the whole number `m` and
the exponent `q` off the bits, so that comparisons and remainders of floats can be taken exactly.
-/
namespace Rehearsal.Decimal

/-- The finite value `(-1)^negative · mantissa · 2^exponent`. -/
structure Binary where
  negative : Bool
  mantissa : Nat
  exponent : Int

namespace Binary

/-- The finite value with these bits; `none` for infinities and not-a-numbers. -/
def ofBits? (bits : Nat) : Option Binary :=
  let negative := bits / Nat.pow 2 63 == 1
  let biased := bits / Nat.pow 2 52 % Nat.pow 2 11
  let fraction := bits % Nat.pow 2 52
  if biased == 2047 then none
  else if biased == 0 then some ⟨negative, fraction, -1074⟩
  else some ⟨negative, fraction + Nat.pow 2 52, Int.ofNat biased - 1075⟩

def ofFloat? (x : Float) : Option Binary := ofBits? x.toBits.toNat

/-- The signed mantissa. -/
def signed (b : Binary) : Int := if b.negative then -Int.ofNat b.mantissa else Int.ofNat b.mantissa

/-- The whole number `b · 2^(-unit)`, for a `unit` no greater than the exponent of `b`. -/
def scaled (b : Binary) (unit : Int) :
    Int := b.signed * Int.ofNat (Nat.pow 2 (b.exponent - unit).toNat)

/-- The order of `a` and `b` as numbers. -/
def compare (a b : Binary) : Ordering :=
  let unit := min a.exponent b.exponent
  Ord.compare (a.scaled unit) (b.scaled unit)

/-- A whole number as a value of exponent zero. -/
def ofInt (n : Int) : Binary := ⟨n < 0, n.natAbs, 0⟩

end Binary

/-- The float nearest to `n · 2^e`. A quotient of whole numbers is rounded once, to nearest with
ties to even, by keeping enough bits below the last and a sticky bit for what is left. -/
def nearestFloat (n : Int) (e : Int) : Float :=
  let m := n.natAbs
  let bits := m.log2 + 1
  let drop := bits - 62
  let kept := m >>> drop
  let sticky := if (kept <<< drop) == m then 0 else 1
  let x := Float.scaleB (Float.ofNat (kept ||| sticky)) (e + Int.ofNat drop)
  if n < 0 then -x else x

end Rehearsal.Decimal
