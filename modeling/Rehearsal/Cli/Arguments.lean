import Rehearsal.Decimal.Reader
import Rehearsal.Text.Quoted

/-!
# Command lines

A command line is a sequence of options and arguments. `Grammar.read` sorts it into events in the
order they take effect, and says where it could not go on. Long options may be shortened to any
unambiguous beginning and may carry their value after an equals sign; after a bare double dash
everything is an argument.
-/
namespace Rehearsal.Cli

open Text

inductive OptionKind where
  | help | flag | value
  deriving DecidableEq

structure OptionSpec where
  /-- The option's long name, dashes included. -/
  name : String
  kind : OptionKind
  /-- A short name, dash included. -/
  short : Option String

/-- The name of an option in messages. -/
def OptionSpec.label (o : OptionSpec) : String :=
  match o.short with
  | some s => s ++ "/" ++ o.name
  | none => o.name

structure Grammar where
  options : List OptionSpec
  /-- Whether the one argument is a command, which takes all that follows with it. -/
  takesRest : Bool

/-- What a word carries besides the option it names. -/
inductive Attached where
  | none
  /-- A value after an equals sign. -/
  | value (s : String)
  /-- Characters right behind a short name. -/
  | glued (cs : List Char)

/-- One word of a command line. -/
inductive Token where
  | argument (s : String)
  /-- A bare double dash. -/
  | separator
  | option (o : OptionSpec) (raw : String) (attached : Attached)
  /-- What looks like an option but is none. -/
  | unknown (raw : String)

def Token.raw : Token → String
  | argument s => s
  | separator => "--"
  | option _ raw _ => raw
  | unknown raw => raw

/-- What a command line asks for, step by step. -/
inductive Event where
  | help
  | flag (name : String)
  | value (name text : String)
  /-- The argument; with a command all that follows it. -/
  | argument (words : List String)
  /-- A word that has no place. -/
  | extra (word : String)

/-- The characters before the first equals sign, and those after it. -/
def splitValue (cs : List Char) : Option (List Char × List Char) :=
  if cs.contains '=' then some (cs.takeWhile (· != '='), (cs.dropWhile (· != '=')).drop 1) else none

/-- Whether a word reads as a negative number. -/
def isNegativeNumber (cs : List Char) : Bool :=
  match cs with
  | '-' :: body =>
    let whole := body.takeWhile isDecimal
    match body.drop whole.length with
    | [] => !whole.isEmpty
    | '.' :: places => !places.isEmpty && places.all isDecimal
    | _ => false
  | _ => false

namespace Grammar

/-- The option that a whole word names. -/
def wholeWord? (g : Grammar) (word : String) : Option OptionSpec :=
  g.options.find? fun o => o.name == word || o.short == some word

/-- The options whose long names begin with `cs`. -/
def startingWith (g : Grammar) (cs : List Char) : List OptionSpec :=
  g.options.filter fun o => cs.isPrefixOf o.name.toList

/-- What a shortened long option may mean, with the value it carries. -/
def longMeanings (g : Grammar) (cs : List Char) : List (OptionSpec × Attached) :=
  match splitValue cs with
  | some (name, v) => (g.startingWith name).map fun o => (o, .value (String.ofList v))
  | none => (g.startingWith cs).map fun o => (o, .none)

/-- What a word with a single dash may mean: a short option with more behind it. -/
def shortMeanings (g : Grammar) (cs : List Char) : List (OptionSpec × Attached) :=
  (g.options.filter fun o => o.short == some (String.ofList (cs.take 2))).map fun o =>
    (o, .glued (cs.drop 2))

/-- The meaning of a word that begins with a dash and is no option as it stands. -/
def approximate (g : Grammar) (word : String) (cs : List Char) : Except String Token :=
  let meanings := if cs.take 2 == ['-', '-'] then g.longMeanings cs else g.shortMeanings cs
  match meanings with
  | [(o, v)] => .ok (.option o word v)
  | [] =>
    if isNegativeNumber cs || cs.contains ' ' then .ok (.argument word) else .ok (.unknown word)
  | several => .error ("ambiguous option: " ++ word ++ " could match " ++
      ", ".intercalate (several.map fun m => m.1.name))

/-- The meaning of one word. -/
def token (g : Grammar) (word : String) : Except String Token :=
  match word.toList with
  | '-' :: c :: rest =>
    match g.wholeWord? word with
    | some o => .ok (.option o word .none)
    | none =>
      let cs := '-' :: c :: rest
      match splitValue cs with
      | some (name, v) => match g.wholeWord? (String.ofList name) with
        | some o => .ok (.option o word (.value (String.ofList v)))
        | none => g.approximate word cs
      | none => g.approximate word cs
  | _ => .ok (.argument word)

/-- The meaning of every word. -/
def tokens (g : Grammar) : List String → Except String (List Token)
  | [] => .ok []
  | "--" :: rest => .ok (.separator :: rest.map .argument)
  | word :: rest => do return (← g.token word) :: (← g.tokens rest)

end Grammar

/-- The message about an option given a value it does not take. -/
def ignoredValue (o : OptionSpec) (v : String) : String :=
  "argument " ++ o.label ++ ": ignored explicit argument " ++ quoted v

/-- What an option without a value asks for. -/
def OptionSpec.event (o : OptionSpec) : Event :=
  match o.kind with
  | .help => .help
  | _ => .flag o.name

/-- What the characters glued to the short name of `o` ask for. Each may be a short option of its
own; the first that is none ends the word. -/
def cluster (g : Grammar) (o : OptionSpec) : List Char → Except String (List Event)
  | [] => .ok [o.event]
  | '-' :: rest => .error (ignoredValue o (String.ofList ('-' :: rest)))
  | c :: rest =>
    match g.wholeWord? (String.ofList ['-', c]), rest with
    | none, _ => .ok [o.event]
    | some next, '=' :: v => .error (ignoredValue next (String.ofList v))
    | some next, rest => do return o.event :: (← cluster g next rest)

/-- What an option asks for with what is attached to it. -/
def attachedEvents (g : Grammar) (o : OptionSpec) : Attached → Except String (List Event)
  | .none => .ok [o.event]
  | .value v => match o.kind with
    | .value => .ok [.value o.name v]
    | _ => .error (ignoredValue o v)
  | .glued cs => cluster g o cs

/-- Events in order, and the fault the reading stopped at. -/
structure Reading where
  events : List Event
  fault : Option String

namespace Reading

def stop (message : String) : Reading := ⟨[], some message⟩

def cons (e : Event) (r : Reading) : Reading := { r with events := e :: r.events }

def after (es : List Event) (r : Reading) : Reading := { r with events := es ++ r.events }

end Reading

/-- Reads words from left to right; `taken` tells whether the argument has been met. -/
def readTokens (g : Grammar) (taken : Bool) : List Token → Reading
  | [] => ⟨[], none⟩
  | .unknown raw :: rest => (readTokens g taken rest).cons (.extra raw)
  | .option o _ .none :: .argument v :: rest =>
    if o.kind = .value then (readTokens g taken rest).cons (.value o.name v)
    else (readTokens g taken (.argument v :: rest)).cons o.event
  | .option o _ .none :: rest =>
    if o.kind = .value then .stop ("argument " ++ o.label ++ ": expected one argument")
    else (readTokens g taken rest).cons o.event
  | .option o _ attached :: rest =>
    match attachedEvents g o attached with
    | .ok es => (readTokens g taken rest).after es
    | .error message => .stop message
  | .separator :: .argument s :: rest =>
    if taken then (readTokens g taken (.argument s :: rest)).cons (.extra "--")
    else if g.takesRest then ⟨[.argument ("--" :: s :: rest.map Token.raw)], none⟩
    else (readTokens g true rest).cons (.argument [s])
  | .separator :: rest => (readTokens g taken rest).cons (.extra "--")
  | .argument s :: .separator :: rest =>
    if taken then (readTokens g taken (.separator :: rest)).cons (.extra s)
    else if g.takesRest then ⟨[.argument (s :: "--" :: rest.map Token.raw)], none⟩
    else (readTokens g true rest).cons (.argument [s])
  | .argument s :: rest =>
    if taken then (readTokens g taken rest).cons (.extra s)
    else if g.takesRest then ⟨[.argument (s :: rest.map Token.raw)], none⟩
    else (readTokens g true rest).cons (.argument [s])
termination_by ts => ts.length

/-- The events of a command line. -/
def Grammar.read (g : Grammar) (words : List String) : Reading :=
  match g.tokens words with
  | .ok ts => readTokens g false ts
  | .error message => .stop message

end Rehearsal.Cli
