import Rehearsal.Text.Lines
import Rehearsal.Value.Render

/-!
# Values on lines of limited width

`Value.layout` writes a literal that is too wide for its place over several lines: mappings,
lists and tuples an item to a line, long texts as adjacent literals that break between words. What
fits stays on one line, as does everything that cannot be broken. Plain mappings list their items
by key.
-/
namespace Rehearsal

open Text

/-- The width that lines are kept to. -/
def lineWidth : Nat := 80

def spaces (n : Nat) : String := String.ofList (List.replicate n ' ')

/-- What separates items that stand on lines of their own, `indent` columns in. -/
def breakLine (indent : Nat) : String := ",\n" ++ spaces indent

/-- A line cut after each run of blanks. -/
def wordsFrom (acc : List Char) (inBlank : Bool) : List Char → List (List Char)
  | [] => if acc.isEmpty then [] else [acc.reverse]
  | c :: rest =>
    if isBlank c then wordsFrom (c :: acc) true rest
    else if inBlank then acc.reverse :: wordsFrom [c] false rest
    else wordsFrom (c :: acc) false rest

def words (line : List Char) : List (List Char) := wordsFrom [] false line

def quotedWidth (cs : List Char) : Nat := (quotedChars cs).length

/-- Words packed into literals no wider than `width` where possible; the last word has to leave
`room` columns besides. -/
def pack (width room : Nat) (current : List Char) : List (List Char) → List (List Char)
  | [] => if current.isEmpty then [] else [current]
  | word :: rest =>
    let candidate := current ++ word
    let used := if rest.isEmpty then room else 0
    if quotedWidth candidate + used > width then
      if current.isEmpty then pack width room word rest
      else current :: pack width room word rest
    else pack width room candidate rest

/-- The pieces a text is broken into: whole lines where they fit, packed words elsewhere. -/
def pieces (width room : Nat) : List (List Char) → List (List Char)
  | [] => []
  | line :: rest =>
    let room' := if rest.isEmpty then room else 0
    (if quotedWidth line + room' ≤ width then [line] else pack width room' [] (words line)) ++
      pieces width room rest

/-- A text too wide for its place. Standing alone (`outermost`) it gets parentheses. -/
def layoutText (outermost : Bool) (indent allowance : Nat) (s : String) : String :=
  let cs := s.toList
  let extra := if outermost then 1 else 0
  let indent := indent + extra
  let ps := pieces (lineWidth - indent) (allowance + extra) (lines cs)
  match ps with
  | [] | [_] => quoted s
  | ps =>
    let body := ("\n" ++ spaces indent).intercalate (ps.map fun p => String.ofList (quotedChars p))
    if outermost then "(" ++ body ++ ")" else body

/-- Items laid out one after the other: `allowance` columns have to stay free behind the last. -/
def layoutItems (indent allowance : Nat) : List (Nat → Nat → String) → List String
  | [] => []
  | [item] => [item indent allowance]
  | item :: rest => item indent 1 :: layoutItems indent allowance rest

/-- The items of a mapping laid out one after the other. -/
def layoutEntries (indent allowance : Nat) : List (String × (Nat → Nat → String)) → List String
  | [] => []
  | [(key, item)] => [key ++ ": " ++ item (indent + key.length + 2) allowance]
  | (key, item) :: rest =>
    (key ++ ": " ++ item (indent + key.length + 2) 1) :: layoutEntries indent allowance rest

mutual

/-- The literal of a value that starts `indent` columns in and has to leave `allowance` columns
free behind it. -/
def Value.layoutAt (outermost : Bool) (v : Value) (indent allowance : Nat) : String :=
  let flat := v.literal true
  if flat.length + indent + allowance ≤ lineWidth then flat
  else match v with
    | .dict ⟨false, es⟩ =>
      let items := (sortByKey (entryLayouts es)).map (·.2)
      "\x7b" ++ (breakLine (indent + 1)).intercalate
        (layoutEntries (indent + 1) (allowance + 1) items) ++ "\x7d"
    | .list xs =>
      "[" ++ (breakLine (indent + 1)).intercalate
        (layoutItems (indent + 1) (allowance + 1) (itemLayouts xs)) ++ "]"
    | .tuple xs =>
      let tail := if xs.length == 1 then ",)" else ")"
      "(" ++ (breakLine (indent + 1)).intercalate
        (layoutItems (indent + 1) (allowance + tail.length) (itemLayouts xs)) ++ tail
    | .text s => layoutText outermost indent allowance s
    | .object _ v => v.layoutAt outermost indent allowance
    | _ => flat

def itemLayouts : List Value → List (Nat → Nat → String)
  | [] => []
  | v :: vs => (fun indent allowance => v.layoutAt false indent allowance) :: itemLayouts vs

def entryLayouts : List (Value × Value) → List (Value × String × (Nat → Nat → String))
  | [] => []
  | (k, v) :: es =>
    (k, k.literal true, fun indent allowance => v.layoutAt false indent allowance) ::
      entryLayouts es

end

/-- The literal of a value on lines of limited width. -/
def Value.layout (v : Value) : String := v.layoutAt true 0 0

end Rehearsal
