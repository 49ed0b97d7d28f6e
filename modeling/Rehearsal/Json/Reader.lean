import Rehearsal.Json.Basic
import Rehearsal.Decimal.Reader

/-!
# Reading the interchange format

A reader that says where a text goes wrong, and how. Positions count characters from the start of
the text.
-/
namespace Rehearsal.Json

/-- What is wrong with a text. -/
inductive Fault where
  /-- The text is not in the format, from a position on. -/
  | malformed (message : String) (pos : Nat)
  /-- A whole number has too many digits to be converted. -/
  | longNumber (digits : Nat)

/-- What is left of a text, and where that starts. -/
structure Cursor where
  pos : Nat
  rest : List Char

namespace Cursor

def skip (c : Cursor) (n : Nat) : Cursor := ⟨c.pos + n, c.rest.drop n⟩

def skipBlanks (c : Cursor) : Cursor :=
  let blanks := c.rest.takeWhile fun x => x == ' ' || x == '\t' || x == '\n' || x == '\r'
  c.skip blanks.length

def fault {α : Type} (c : Cursor) (message : String) : Except Fault α :=
  .error (.malformed message c.pos)

/-- Whether the text goes on with `word`. -/
def startsWith (c : Cursor) (word : String) : Bool := word.toList.isPrefixOf c.rest

end Cursor

def hexValue? (c : Char) : Option Nat :=
  let n := c.toNat
  if 48 ≤ n && n ≤ 57 then some (n - 48)
  else if 97 ≤ n && n ≤ 102 then some (n - 87)
  else if 65 ≤ n && n ≤ 70 then some (n - 55)
  else none

/-- The number that four hexadecimal digits spell. -/
def unit? : List Char → Option Nat
  | [a, b, c, d] => do
    return (((← hexValue? a) * 16 + (← hexValue? b)) * 16 + (← hexValue? c)) * 16 + (← hexValue? d)
  | _ => none

/-- The character of an escape of one letter. -/
def letterEscape? (c : Char) : Option Char :=
  if c == '\\' || c == '/' || c.toNat == 0x22 then some c
  else if c == 'b' then some '\x08'
  else if c == 'f' then some '\x0c'
  else if c == 'n' then some '\n'
  else if c == 'r' then some '\r'
  else if c == 't' then some '\t'
  else none

/-- The low half of a surrogate pair, where the text goes on with its escape and does not end
with it. -/
def lowSurrogate? (rest : List Char) : Option (Except Unit Nat) :=
  match rest with
  | '\\' :: 'u' :: tail =>
    if tail.length ≤ 4 then none
    else match unit? (tail.take 4) with
      | some n => some (.ok n)
      | none => some (.error ())
  | _ => none

/-- The rest of a text literal that began at `start`; `acc` holds its characters in reverse. -/
def readText (start : Nat) : Nat → Cursor → List Char → Except Fault (String × Cursor)
  | 0, _, _ => .error (.malformed "Unterminated string starting at" start)
  | fuel + 1, cur, acc =>
    match cur.rest with
    | [] => .error (.malformed "Unterminated string starting at" start)
    | c :: rest =>
      if c.toNat == 0x22 then .ok (String.ofList acc.reverse, cur.skip 1)
      else if c.toNat < 32 then cur.fault "Invalid control character at"
      else if c != '\\' then readText start fuel (cur.skip 1) (c :: acc)
      else match rest with
        | [] => .error (.malformed "Unterminated string starting at" start)
        | 'u' :: digits =>
          let badUnit := (cur.skip 1).fault "Invalid \\uXXXX escape"
          if digits.length ≤ 4 then badUnit
          else match unit? (digits.take 4) with
            | none => badUnit
            | some n =>
              let after := cur.skip 6
              if 0xd800 ≤ n && n < 0xdc00 then
                match lowSurrogate? after.rest with
                | some (.error ()) => (after.skip 1).fault "Invalid \\uXXXX escape"
                | some (.ok low) =>
                  if 0xdc00 ≤ low && low < 0xe000 then
                    let code := 0x10000 + (n - 0xd800) * 1024 + (low - 0xdc00)
                    readText start fuel (after.skip 6) (Char.ofNat code :: acc)
                  else readText start fuel after ('\ufffd' :: acc)
                | none => readText start fuel after ('\ufffd' :: acc)
              else
                let c := if 0xdc00 ≤ n && n < 0xe000 then '\ufffd' else Char.ofNat n
                readText start fuel after (c :: acc)
        | letter :: _ =>
          match letterEscape? letter with
          | some c => readText start fuel (cur.skip 2) (c :: acc)
          | none => cur.fault "Invalid \\escape"

/-- The digits at the head of a text. -/
def digits (cs : List Char) : List Char := cs.takeWhile Char.isDigit

def natOf (cs : List Char) : Nat := cs.foldl (fun n c => n * 10 + (c.toNat - 48)) 0

/-- The exponent at the head of a text, and how many characters it takes. -/
def exponentAt? (cs : List Char) : Option (Int × Nat) :=
  match cs with
  | e :: tail =>
    if e == 'e' || e == 'E' then
      let (negative, body, sign) := match tail with
        | '-' :: body => (true, body, 1)
        | '+' :: body => (false, body, 1)
        | body => (false, body, 0)
      let ds := digits body
      if ds.isEmpty then none
      else some (if negative then -Int.ofNat (natOf ds) else Int.ofNat (natOf ds),
        1 + sign + ds.length)
    else none
  | [] => none

/-- A number: whole unless it has places or an exponent. -/
def readNumber (cur : Cursor) : Except Fault (Json × Cursor) :=
  let (negative, body, sign) := match cur.rest with
    | '-' :: body => (true, body, 1)
    | body => (false, body, 0)
  let whole := match body with
    | '0' :: _ => ['0']
    | body => digits body
  if whole.isEmpty then cur.fault "Expecting value"
  else
    let rest := body.drop whole.length
    let places := match rest with
      | '.' :: tail => digits tail
      | _ => []
    let rest := if places.isEmpty then rest else rest.drop (places.length + 1)
    let size := sign + whole.length + (if places.isEmpty then 0 else places.length + 1)
    match exponentAt? rest with
    | some (e, n) =>
      let x := Decimal.scientific (natOf (whole ++ places)) (e - Int.ofNat places.length)
      .ok (float (if negative then -x else x), cur.skip (size + n))
    | none =>
      if places.isEmpty then
        if whole.length > Decimal.digitLimit then .error (.longNumber whole.length)
        else
          let n := Int.ofNat (natOf whole)
          .ok (int (if negative then -n else n), cur.skip size)
      else
        let x := Decimal.scientific (natOf (whole ++ places)) (-Int.ofNat places.length)
        .ok (float (if negative then -x else x), cur.skip size)

/-- The entries of an object with the value of a key put in the place of an earlier one. -/
def putEntry (es : List (String × Json)) (k : String) (v : Json) : List (String × Json) :=
  if es.any fun e => e.1 == k then es.map fun e => if e.1 == k then (k, v) else e
  else es ++ [(k, v)]

/-- Words that stand for values. -/
def keywords : List (String × Json) :=
  [("null", null), ("true", bool true), ("false", bool false), ("NaN", float (0.0 / 0.0)),
    ("Infinity", float (1.0 / 0.0)), ("-Infinity", float (-1.0 / 0.0))]

mutual

/-- One value. -/
def readValue : Nat → Cursor → Except Fault (Json × Cursor)
  | 0, cur => cur.fault "Expecting value"
  | fuel + 1, cur =>
    match cur.rest with
    | [] => cur.fault "Expecting value"
    | c :: _ =>
      if c.toNat == 0x22 then do
        let (s, cur) ← readText cur.pos (cur.rest.length + 1) (cur.skip 1) []
        return (text s, cur)
      else if c.toNat == 0x7b then
        let cur := (cur.skip 1).skipBlanks
        match cur.rest with
        | x :: _ => if x.toNat == 0x7d then .ok (object [], cur.skip 1) else readEntries fuel cur []
        | [] => readEntries fuel cur []
      else if c == '[' then
        let cur := (cur.skip 1).skipBlanks
        match cur.rest with
        | ']' :: _ => .ok (array [], cur.skip 1)
        | _ => readItems fuel cur []
      else match keywords.find? fun k => cur.startsWith k.1 with
        | some k => .ok (k.2, cur.skip k.1.length)
        | none => readNumber cur

/-- The items of an array from the first on; `acc` holds those read, in reverse. -/
def readItems : Nat → Cursor → List Json → Except Fault (Json × Cursor)
  | 0, cur, _ => cur.fault "Expecting value"
  | fuel + 1, cur, acc => do
    let (v, cur) ← readValue fuel cur
    let cur := cur.skipBlanks
    match cur.rest with
    | ']' :: _ => return (array (v :: acc).reverse, cur.skip 1)
    | ',' :: _ => readItems fuel (cur.skip 1).skipBlanks (v :: acc)
    | _ => cur.fault "Expecting ',' delimiter"

/-- The entries of an object from the first key on. -/
def readEntries : Nat → Cursor → List (String × Json) → Except Fault (Json × Cursor)
  | 0, cur, _ => cur.fault "Expecting value"
  | fuel + 1, cur, es =>
    match cur.rest with
    | c :: _ =>
      if c.toNat == 0x22 then do
        let (k, cur) ← readText cur.pos (cur.rest.length + 1) (cur.skip 1) []
        let cur := cur.skipBlanks
        match cur.rest with
        | ':' :: _ =>
          let (v, cur) ← readValue fuel (cur.skip 1).skipBlanks
          let cur := cur.skipBlanks
          let es := putEntry es k v
          match cur.rest with
          | x :: _ =>
            if x.toNat == 0x7d then return (object es, cur.skip 1)
            else if x == ',' then readEntries fuel (cur.skip 1).skipBlanks es
            else cur.fault "Expecting ',' delimiter"
          | [] => cur.fault "Expecting ',' delimiter"
        | _ => cur.fault "Expecting ':' delimiter"
      else cur.fault "Expecting property name enclosed in double quotes"
    | [] => cur.fault "Expecting property name enclosed in double quotes"

end

/-- The value a text denotes. -/
def read (s : String) : Except Fault Json :=
  let cs := s.toList
  match cs with
  | '\ufeff' :: _ => .error (.malformed "Unexpected UTF-8 BOM (decode using utf-8-sig)" 0)
  | _ => do
    let (v, cur) ← readValue (2 * cs.length + 2) (Cursor.skipBlanks ⟨0, cs⟩)
    let cur := cur.skipBlanks
    if cur.rest.isEmpty then return v else cur.fault "Extra data"

/-- A fault of the text `s`, with its line and column if it has them. -/
def Fault.describe (f : Fault) (s : String) : String :=
  match f with
  | .malformed message pos =>
    let before := s.toList.take pos
    let line := before.countP (· == '\n') + 1
    let column := (before.reverse.takeWhile (· != '\n')).length + 1
    message ++ ": line " ++ toString line ++ " column " ++ toString column ++ " (char " ++
      toString pos ++ ")"
  | .longNumber digits => Decimal.limitMessage (some digits)

end Rehearsal.Json
