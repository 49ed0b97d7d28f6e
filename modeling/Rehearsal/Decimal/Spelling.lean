import Rehearsal.Decimal.Shortest

/-!
# Spelling of decimals

How a decimal is spelled: positionally while its point stands within a range, otherwise with an
exponent.
-/
namespace Rehearsal.Decimal

/-- The choices a spelling makes. -/
structure Spelling where
  /-- Positional for a decimal point at these places, the ends included. -/
  least : Int
  greatest : Int
  /-- What a whole number ends in. -/
  wholeTail : String
  /-- The least number of digits of an exponent. -/
  exponentWidth : Nat
  infinite : String
  undefined : String

/-- Floats are positional from `0.0001` up to below `10^16`, keep a `.0`, and write an exponent
with a sign and two digits. -/
def Spelling.float : Spelling := ⟨-3, 16, ".0", 2, "inf", "nan"⟩

/-- The same with the spellings of data interchange for the values that are no numbers. -/
def Spelling.interchange :
    Spelling := { Spelling.float with infinite := "Infinity", undefined := "NaN" }

def digitText (ds : List Nat) : String :=
  String.ofList (ds.map fun d => Char.ofNat (48 + d))

def zeros (n : Nat) : String := String.ofList (List.replicate n '0')

/-- The exponent part: a sign and at least `width` digits. -/
def exponentText (width : Nat) (e : Int) : String :=
  let digits := toString e.natAbs
  "e" ++ (if e < 0 then "-" else "+") ++ zeros (width - digits.length) ++ digits

/-- A non-negative decimal in the spelling `form`. -/
def Spelling.spell (form : Spelling) (d : Digits) : String :=
  let n := d.digits.length
  if form.least ≤ d.point && d.point ≤ form.greatest then
    if d.point ≤ 0 then "0." ++ zeros (-d.point).toNat ++ digitText d.digits
    else
      let whole := d.point.toNat
      if n ≤ whole then digitText d.digits ++ zeros (whole - n) ++ form.wholeTail
      else digitText (d.digits.take whole) ++ "." ++ digitText (d.digits.drop whole)
  else
    digitText (d.digits.take 1) ++
      (if n ≤ 1 then "" else "." ++ digitText (d.digits.drop 1)) ++
      exponentText form.exponentWidth (d.point - 1)

/-- The text of a float. -/
def Spelling.text (form : Spelling) (x : Float) : String :=
  match Binary.ofFloat? x with
  | some b => (if b.negative then "-" else "") ++ form.spell (shortest b)
  | none =>
    if x.isNaN then form.undefined else if x < 0 then "-" ++ form.infinite else form.infinite

end Rehearsal.Decimal
