/-!
# Templates

A template is a text with places to fill in. A place starts with a percent sign, which is written
twice where it stands for itself; a key in parentheses, flags, a width and a precision may follow,
and a letter that says what is wanted ends it. Reading never fails as a whole: a place that breaks
off carries its fault, because what stands before it is filled in first.
-/
namespace Rehearsal.Text

/-- What is wrong with a place. -/
inductive TemplateFault where
  | incomplete
  | incompleteKey
  | widthTooBig
  | precisionTooBig
  deriving DecidableEq

def TemplateFault.message : TemplateFault → String
  | incomplete => "incomplete format"
  | incompleteKey => "incomplete format key"
  | widthTooBig => "width too big"
  | precisionTooBig => "precision too big"

/-- A width or a precision: written out, or taken from the arguments. -/
inductive Measure where
  | written (n : Nat)
  | argument

structure Flags where
  left : Bool
  signed : Bool
  spaced : Bool
  alternate : Bool
  zeros : Bool

def Flags.none : Flags := ⟨false, false, false, false, false⟩

/-- The flags with the one of a character added. -/
def Flags.add? (f : Flags) (c : Char) : Option Flags :=
  if c == '-' then some { f with left := true }
  else if c == '+' then some { f with signed := true }
  else if c == ' ' then some { f with spaced := true }
  else if c == '#' then some { f with alternate := true }
  else if c == '0' then some { f with zeros := true }
  else Option.none

/-- A place, as far as it could be read. -/
structure Place where
  /-- The key, if one is asked for: its text, or what is wrong with it. -/
  key : Option (Except TemplateFault String)
  flags : Flags
  width : Option Measure
  precision : Option Measure
  /-- The letter that ends the place, with its position in the template. -/
  letter : Except TemplateFault (Char × Nat)

inductive Piece where
  | literal (c : Char)
  | place (p : Place)

namespace Template

/-- A key up to the parenthesis that closes it, `depth` others being open, and what follows it. -/
def readKey (key : List Char) (depth : Nat) : List Char → Option (List Char × List Char)
  | [] => none
  | c :: rest =>
    if c == ')' then
      match depth with
      | 0 => some (key.reverse, rest)
      | depth + 1 => readKey (c :: key) depth rest
    else readKey (c :: key) (if c == '(' then depth + 1 else depth) rest

def readFlags (f : Flags) : List Char → Flags × List Char
  | [] => (f, [])
  | c :: rest => match f.add? c with
    | some f => readFlags f rest
    | none => (f, c :: rest)

/-- A number written in digits that is at most `bound`. -/
def readNumber (bound n : Nat) : List Char → Option (Nat × List Char)
  | [] => some (n, [])
  | c :: rest =>
    if c.isDigit then
      let d := c.toNat - 48
      if n > (bound - d) / 10 then none else readNumber bound (n * 10 + d) rest
    else some (n, c :: rest)

/-- A measure of at most `bound`, if there is one. -/
def readMeasure (bound : Nat) : List Char → Option (Option Measure × List Char)
  | '*' :: rest => some (some .argument, rest)
  | c :: rest =>
    if c.isDigit then
      (readNumber bound 0 (c :: rest)).map fun r => (some (.written r.1), r.2)
    else some (none, c :: rest)
  | [] => some (none, [])

/-- The longest width and the greatest precision. -/
def greatestWidth : Nat := Nat.pow 2 63 - 1

def greatestPrecision : Nat := Nat.pow 2 31 - 1

/-- The letter of a place in a template of `size` characters, one of the size letters that mean
nothing left out, and what follows. -/
def readLetter (size : Nat) (cs : List Char) : Except TemplateFault (Char × Nat) × List Char :=
  let cs := match cs with
    | c :: rest => if c == 'h' || c == 'l' || c == 'L' then rest else c :: rest
    | [] => []
  match cs with
  | c :: rest => (.ok (c, size - cs.length), rest)
  | [] => (.error .incomplete, [])

/-- The place that starts behind a percent sign, and what follows it. -/
def readPlace (size : Nat) (cs : List Char) : Place × List Char :=
  let broken := fun key flags width fault =>
    ((⟨key, flags, width, none, .error fault⟩ : Place), ([] : List Char))
  let behindKey := fun (key : Option (Except TemplateFault String)) (cs : List Char) =>
    let (flags, cs) := readFlags .none cs
    match readMeasure greatestWidth cs with
    | none => broken key flags none .widthTooBig
    | some (width, '.' :: cs) =>
      match readMeasure greatestPrecision cs with
      | none => broken key flags width .precisionTooBig
      | some (precision, cs) =>
        let (letter, cs) := readLetter size cs
        (⟨key, flags, width, some (precision.getD (.written 0)), letter⟩, cs)
    | some (width, cs) =>
      let (letter, cs) := readLetter size cs
      (⟨key, flags, width, none, letter⟩, cs)
  match cs with
  | '(' :: rest => match readKey [] 0 rest with
    | some (key, rest) => behindKey (some (.ok (String.ofList key))) rest
    | none => broken (some (.error .incompleteKey)) .none none .incompleteKey
  | cs => behindKey none cs

/-- The pieces of the characters `cs` that end a template of `size` characters, `fuel` pieces at
most. -/
def readPieces (size : Nat) : Nat → List Char → List Piece
  | 0, _ => []
  | fuel + 1, '%' :: '%' :: cs => .literal '%' :: readPieces size fuel cs
  | fuel + 1, '%' :: cs =>
    let (p, rest) := readPlace size cs
    .place p :: readPieces size fuel rest
  | fuel + 1, c :: cs => .literal c :: readPieces size fuel cs
  | _ + 1, [] => []

/-- The pieces of a template. -/
def read (s : String) : List Piece := readPieces s.length s.length s.toList

end Template

end Rehearsal.Text
