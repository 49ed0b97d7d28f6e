import Rehearsal.Decimal.Rounded
import Rehearsal.Text.Template
import Rehearsal.Value.Conversion

/-!
# Filling in templates

The places of a template are filled in from the left with the items of a tuple, or with one value;
places with keys take theirs from a mapping. Every argument has to be used, unless they come from
something that is looked up.
-/
namespace Rehearsal

open Text

/-- What is left to fill in with. -/
structure Supply where
  left : List Value
  /-- Where keys are looked up. -/
  lookedUp : Option Value

abbrev Filling := StateT Supply (Except Refusal)

namespace Filling

def refuse {α : Type} (r : Refusal) : Filling α := throw r

/-- The next argument. -/
def next : Filling Value := do
  match (← get).left with
  | v :: rest =>
    modify fun s => { s with left := rest }
    return v
  | [] => refuse (.typed "not enough arguments for format string")

/-- Takes what is stored under a key for the only argument. -/
def lookUp (key : Except TemplateFault String) : Filling Unit := do
  match (← get).lookedUp with
  | none => refuse (.typed "format requires a mapping")
  | some m => match key with
    | .error fault => refuse (.value fault.message)
    | .ok key =>
      let v ← (m.subscript (.text key) : Except Refusal Value)
      modify fun s => { s with left := [v] }

/-- A measure that is an argument: a whole number whose size is less than `bound`. -/
def measured (bound : Nat) (kind : String) : Filling Int := do
  match ← next with
  | .int n =>
    if n < Int.ofNat bound && -Int.ofNat bound ≤ n then return n
    else refuse (.ofText .overflow ("Python int too large to convert to C " ++ kind))
  | .bool b => return if b then 1 else 0
  | _ => refuse (.typed "* wants int")

/-- The flags and the width: a negative width is one for text that stands left. -/
def width (p : Place) : Filling (Flags × Option Nat) := do
  match p.width with
  | none => return (p.flags, none)
  | some (.written n) => return (p.flags, some n)
  | some .argument =>
    let n ← measured (Nat.pow 2 63) "ssize_t"
    return (if n < 0 then { p.flags with left := true } else p.flags, some n.natAbs)

/-- The precision: a negative one counts as zero. -/
def precision (p : Place) : Filling (Option Nat) := do
  match p.precision with
  | none => return none
  | some (.written n) => return some n
  | some .argument => return some (← measured (Nat.pow 2 31) "int").toNat

/-- What is written at a place, before it is padded. -/
structure Filler where
  sign : String
  /-- The mark of a base other than ten. -/
  base : String
  body : String
  /-- Zeros may stand between the base and the body. -/
  numeric : Bool

/-- The sign that a number shows. -/
def signOf (flags : Flags) (negative : Bool) : String :=
  if negative then "-" else if flags.signed then "+" else if flags.spaced then " " else ""

/-- A filler brought to its width. -/
def pad (flags : Flags) (width : Option Nat) (f : Filler) : String :=
  let missing := width.getD 0 - (f.sign.length + f.base.length + f.body.length)
  let filled := fun c => String.ofList (List.replicate missing c)
  if flags.left then f.sign ++ f.base ++ f.body ++ filled ' '
  else if f.numeric && flags.zeros then f.sign ++ f.base ++ filled '0' ++ f.body
  else filled ' ' ++ f.sign ++ f.base ++ f.body

/-- A text with the characters beyond ASCII escaped. -/
def asciiOnly (s : String) : String :=
  String.ofList (s.toList.flatMap fun c => if c.toNat < 128 then [c] else escapeByNumber c)

/-- A value as text, cut at the precision. -/
def textual (letter : Char) (precision : Option Nat) (v : Value) : Except Refusal Filler := do
  v.checkLong
  let s := if letter == 's' then v.plain
    else if letter == 'r' then v.repr else asciiOnly v.repr
  let s := match precision with
    | some n => String.ofList (s.toList.take n)
    | none => s
  return ⟨"", "", s, false⟩

/-- The base of a letter for whole numbers. -/
def baseOf? (letter : Char) : Option Nat :=
  if letter == 'd' || letter == 'i' || letter == 'u' then some 10
  else if letter == 'o' then some 8
  else if letter == 'x' || letter == 'X' then some 16
  else none

/-- The whole number that a value is written as in a base: floats lose their places in decimal, and
have no other form. -/
def wholeOf (letter : Char) (base : Nat) (v : Value) : Except Refusal Int :=
  let wrong := fun (what : String) => Except.error (.typed
    ("%" ++ String.singleton letter ++ " format: " ++ what ++ " is required, not " ++ v.typeName))
  match Number.ofValue? v with
  | some (.whole n) => .ok n
  | some (.float x) => if base == 10 then Value.truncate x else wrong "an integer"
  | none => if base == 10 then wrong "a real number" else wrong "an integer"

/-- A whole number, with at least as many digits as the precision says. -/
def whole (flags : Flags) (letter : Char) (base : Nat) (precision : Option Nat) (v : Value) :
    Except Refusal Filler := do
  let n ← wholeOf letter base v
  if base == 10 && isLong n then .error (longRefusal none)
  let cased := fun (s : String) => if letter == 'X' then s.toUpper else s
  let digits := String.ofList (Nat.toDigits base n.natAbs)
  let digits := Decimal.zeros (precision.getD 0 - digits.length) ++ digits
  let mark := if !flags.alternate then "" else if base == 8 then "0o"
    else if base == 16 then "0x" else ""
  return ⟨signOf flags (n < 0), cased mark, cased digits, true⟩

/-- How a letter for floats has them written. -/
def styleOf? (letter : Char) : Option Decimal.Style :=
  let c := letter.toLower
  if c == 'f' then some .fixed else if c == 'e' then some .exponent
  else if c == 'g' then some .general else none

/-- The float that a value is written as. -/
def floatFrom (v : Value) : Except Refusal Float :=
  match Number.ofValue? v with
  | some n => Value.floatOf n
  | none => .error (.typed ("must be real number, not " ++ v.typeName))

/-- A float, with six places or digits unless the precision says otherwise. -/
def floating (flags : Flags) (letter : Char) (style : Decimal.Style) (precision : Option Nat)
    (v : Value) : Except Refusal Filler := do
  let x ← floatFrom v
  let s := Decimal.precisionText x style (precision.getD 6) flags.alternate
  let s := if letter.isUpper then s.toUpper else s
  let negative := s.startsWith "-"
  let body := String.ofList (if negative then s.toList.drop 1 else s.toList)
  return ⟨signOf flags negative, "", body, true⟩

/-- One character, given as a text or by its number. -/
def character (v : Value) : Except Refusal Filler :=
  let wrong := Except.error (.typed "%c requires int or char")
  match v with
  | .text s => if s.length == 1 then .ok ⟨"", "", s, false⟩ else wrong
  | v => match Number.ofValue? v with
    | some (.whole n) =>
      if 0 ≤ n && n < 0x110000 then
        .ok ⟨"", "", String.singleton (Char.ofNat n.toNat), false⟩
      else .error (.ofText .overflow "%c arg not in range(0x110000)")
    | _ => wrong

/-- The refusal of a letter that no conversion goes by. -/
def unknownLetter (letter : Char) (position : Nat) : Refusal :=
  let n := letter.toNat
  let shown := if 31 ≤ n && n ≤ 126 then letter else '?'
  .value ("unsupported format character '" ++ String.singleton shown ++ "' (0x" ++
    String.ofList (Nat.toDigits 16 n) ++ ") at index " ++ toString position)

/-- What a value is written as at a place. -/
def convert (flags : Flags) (letter : Char) (position : Nat) (precision : Option Nat) (v : Value) :
    Except Refusal Filler :=
  if letter == 's' || letter == 'r' || letter == 'a' then textual letter precision v
  else match baseOf? letter, styleOf? letter with
    | some base, _ => whole flags letter base precision v
    | none, some style => floating flags letter style precision v
    | none, none =>
      if letter == 'c' then character v else .error (unknownLetter letter position)

/-- What is written at a place. -/
def place (p : Place) : Filling String := do
  if let some key := p.key then lookUp key
  let (flags, width) ← width p
  let precision ← precision p
  match p.letter with
  | .error fault => refuse (.value fault.message)
  | .ok (letter, position) =>
    let v ← next
    return pad flags width (← (convert flags letter position precision v : Except Refusal Filler))

def piece : Piece → Filling String
  | .literal c => pure (String.singleton c)
  | .place p => place p

end Filling

namespace Value

/-- Whether keys of a template are looked up in a value. -/
def isLookedUp (v : Value) : Bool :=
  match v with
  | dict _ | list _ => true
  | _ => false

/-- The template `s` filled in with a value. -/
def fill (s : String) (v : Value) : Except Refusal String := do
  let left := match v with
    | tuple xs => xs
    | v => [v]
  let lookedUp := if v.isLookedUp then some v else none
  let (texts, rest) ← ((Template.read s).mapM Filling.piece).run ⟨left, lookedUp⟩
  if rest.left.isEmpty || lookedUp.isSome then return String.join texts
  .error (.typed "not all arguments converted during string formatting")

end Value

end Rehearsal
