import Rehearsal.Decimal.Spelling

/-!
# Data interchange

Values of the interchange format, and their text on one line. Everything outside printable ASCII
is escaped, beyond the basic plane by a pair of surrogates.
-/
namespace Rehearsal

inductive Json where
  | null
  | bool (b : Bool)
  | int (n : Int)
  | float (x : Float)
  | text (s : String)
  | array (items : List Json)
  | object (entries : List (String × Json))

namespace Json

instance : Inhabited Json := ⟨null⟩

/-- The value of a key; the last of several counts. -/
def get? (j : Json) (key : String) : Option Json :=
  match j with
  | object es => (es.reverse.find? fun e => e.1 == key).map (·.2)
  | _ => none

def hexDigit (n : Nat) : Char :=
  if n < 10 then Char.ofNat (48 + n) else Char.ofNat (87 + n)

/-- The escape of one code unit. -/
def unitEscape (n : Nat) : List Char :=
  ['\\', 'u', hexDigit (n / 4096 % 16), hexDigit (n / 256 % 16), hexDigit (n / 16 % 16),
    hexDigit (n % 16)]

def escapeChar (c : Char) : List Char :=
  let n := c.toNat
  if n == 0x22 || n == 0x5c then ['\\', c]
  else if 32 ≤ n && n < 127 then [c]
  else if n == 10 then ['\\', 'n']
  else if n == 13 then ['\\', 'r']
  else if n == 9 then ['\\', 't']
  else if n == 12 then ['\\', 'f']
  else if n == 8 then ['\\', 'b']
  else if n < 0x10000 then unitEscape n
  else
    let m := n - 0x10000
    unitEscape (0xd800 + m / 1024) ++ unitEscape (0xdc00 + m % 1024)

def quote (s : String) : String :=
  "\"" ++ String.ofList (s.toList.flatMap escapeChar) ++ "\""

mutual

/-- The text of a value, items separated by a comma and a space. -/
def render : Json → String
  | null => "null"
  | bool true => "true"
  | bool false => "false"
  | int n => toString n
  | float x => Decimal.Spelling.interchange.text x
  | text s => quote s
  | array items => "[" ++ ", ".intercalate (renderItems items) ++ "]"
  | object entries => "\x7b" ++ ", ".intercalate (renderEntries entries) ++ "\x7d"

def renderItems : List Json → List String
  | [] => []
  | j :: js => j.render :: renderItems js

def renderEntries : List (String × Json) → List String
  | [] => []
  | (k, j) :: es => (quote k ++ ": " ++ j.render) :: renderEntries es

end

end Json

end Rehearsal
