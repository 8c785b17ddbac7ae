import Typings.Settings
import Typings.Text.Digit
import Typings.Text.Shown

/-! # Arguments

The words of a command line are told apart before any of them takes effect: options, which may be
abbreviated as long as only one of them is meant, values, and words that look like options but are
none.
-/

namespace Typings.CommandLine

inductive Switch where
  | help
  | space
  | environment
  | token
  | out
  | namePrefix
  | config
  | noUndefinedOptionals
  | readonlyArrays
  | noAliases
  | noBrand
  | noFormat
  deriving DecidableEq, Repr

def spellings : List (String × Switch) := [
  ("-h", .help), ("--help", .help), ("--space", .space), ("--env", .environment), ("--token", .token),
  ("--out", .out), ("--prefix", .namePrefix), ("--config", .config),
  ("--no-undefined-optionals", .noUndefinedOptionals), ("--readonly-arrays", .readonlyArrays),
  ("--no-aliases", .noAliases), ("--no-brand", .noBrand), ("--no-format", .noFormat)]

/-- How reports name an option: by all its spellings. -/
def Switch.name (s : Switch) : String :=
  "/".intercalate ((spellings.filter fun entry => entry.2 = s).map Prod.fst)

def Switch.takesValue : Switch → Bool
  | .space | .environment | .token | .out | .namePrefix | .config => true
  | _ => false

inductive ArgumentFault where
  | ambiguous (word : String) (candidates : List String)
  | missingValue (switch : Switch)
  | strayValue (switch : Switch) (value : String)
  | unrecognized (words : List String)
  deriving DecidableEq, Repr

def ArgumentFault.message : ArgumentFault → String
  | .ambiguous word candidates =>
    "ambiguous option: " ++ word ++ " could match " ++ ", ".intercalate candidates
  | .missingValue s => "argument " ++ s.name ++ ": expected one argument"
  | .strayValue s v => "argument " ++ s.name ++ ": ignored explicit argument " ++ Text.shown v
  | .unrecognized words => "unrecognized arguments: " ++ " ".intercalate words

/-! ## Telling words apart -/

inductive Word where
  | switch (s : Switch) (value : Option String)
  | value
  /-- The two dashes after which all words are values. -/
  | separator
  /-- What looks like an option but is none. -/
  | stray
  deriving DecidableEq, Repr

/-- What comes before and after the first equals sign. -/
def splitEquals (s : String) : String × Option String :=
  match s.toList.span (· != '=') with
  | (before, '=' :: after) => (String.ofList before, some (String.ofList after))
  | _ => (s, none)

/-- Whether characters write digits, perhaps with a line feed after them. -/
def isDigits (cs : List Char) : Bool :=
  match cs.span Text.isDecimalDigit with
  | (ds, rest) => !ds.isEmpty && (rest = [] || rest = ['\n'])

/-- Whether characters write a number: digits, perhaps with a point before the last of them. -/
def isNumber (cs : List Char) : Bool :=
  isDigits cs ||
    match cs.dropWhile Text.isDecimalDigit with
    | '.' :: rest => isDigits rest
    | _ => false

def isNegativeNumber (s : String) : Bool :=
  match s.toList with
  | '-' :: rest => isNumber rest
  | _ => false

def candidates (start : String) : List (String × Switch) :=
  spellings.filter fun entry => start.toList.isPrefixOf entry.1.toList

/-- The options that a word may mean, with the value given with it. After a single dash and a letter
the rest of a word is a value. -/
def readings (word : String) : List (String × Switch × Option String) :=
  match word.toList with
  | '-' :: '-' :: _ =>
    let (start, value) := splitEquals word
    (candidates start).map fun (name, s) => (name, s, value)
  | '-' :: 'h' :: rest => [("-h", .help, some (String.ofList rest))]
  | _ => []

/-- What a word that is no exact spelling is. -/
def classifyInexact (word : String) : Except ArgumentFault Word :=
  let (start, value) := splitEquals word
  match value, spellings.lookup start with
  | some v, some s => .ok (.switch s (some v))
  | _, _ =>
    match readings word with
    | [(_, s, v)] => .ok (.switch s v)
    | [] =>
      if isNegativeNumber word || word.toList.contains ' ' then .ok .value else .ok .stray
    | many => .error (.ambiguous word (many.map Prod.fst))

def classify (word : String) : Except ArgumentFault Word :=
  match word.toList with
  | '-' :: _ :: _ =>
    match spellings.lookup word with
    | some s => .ok (.switch s none)
    | none => classifyInexact word
  | _ => .ok .value

/-- The words with what they are; behind a separator all are values. -/
def classifyAll : List String → Except ArgumentFault (List (String × Word))
  | [] => .ok []
  | word :: rest =>
    if word = "--" then .ok ((word, .separator) :: rest.map fun w => (w, .value))
    else do
      let w ← classify word
      return (word, w) :: (← classifyAll rest)

/-! ## Taking effect -/

structure Arguments where
  overrides : Overrides := {}
  config : Option String := none

def Arguments.turn (a : Arguments) : Switch → Arguments
  | .noUndefinedOptionals =>
    { a with overrides := { a.overrides with undefinedOnOptional := some (.bool false) } }
  | .readonlyArrays => { a with overrides := { a.overrides with readonlyArrays := some (.bool true) } }
  | .noAliases => { a with overrides := { a.overrides with linkAliases := some (.bool false) } }
  | .noBrand => { a with overrides := { a.overrides with brandEntries := some (.bool false) } }
  | .noFormat => { a with overrides := { a.overrides with formatOutput := some (.bool false) } }
  | _ => a

/-- The effect of an option with its value; a later one of the same option replaces it. -/
def Arguments.give (a : Arguments) (s : Switch) (v : String) : Arguments :=
  match s with
  | .space => { a with overrides := { a.overrides with spaceId := some v } }
  | .environment => { a with overrides := { a.overrides with environmentId := some v } }
  | .token => { a with overrides := { a.overrides with managementToken := some v } }
  | .out => { a with overrides := { a.overrides with outFile := some v } }
  | .namePrefix => { a with overrides := { a.overrides with namePrefix := some (.text v) } }
  | .config => { a with config := some v }
  | _ => a

/-- What a command line asks for: to be helped, or to run. -/
inductive Command where
  | help
  | run (arguments : Arguments)

/-- The letters behind `-h` may only repeat it. -/
def helpLetters : List Char → Except ArgumentFault Command
  | [] => .ok .help
  | 'h' :: rest => helpLetters rest
  | letters => .error (.strayValue .help (String.ofList letters))

/-- A value given to an option that takes none. -/
def strayValue (word : String) (s : Switch) (v : String) : Except ArgumentFault Command :=
  match word.toList, v.toList with
  | '-' :: '-' :: _, _ => .error (.strayValue s v)
  | _, [] => .error (.strayValue s v)
  | _, letters => helpLetters letters

/-- Lets the words take effect one after the other; words that nothing takes are kept for the
report. -/
def takeEffect (a : Arguments) (extra : List String) : List (String × Word) → Except ArgumentFault Command
  | [] => if extra.isEmpty then .ok (.run a) else .error (.unrecognized extra)
  | (_, .switch .help none) :: _ => .ok .help
  | (word, .switch s (some v)) :: rest =>
    if s.takesValue then takeEffect (a.give s v) extra rest else strayValue word s v
  | (_, .switch s none) :: rest =>
    if s.takesValue then
      match rest with
      | (v, .value) :: rest => takeEffect (a.give s v) extra rest
      | _ => .error (.missingValue s)
    else takeEffect (a.turn s) extra rest
  | (word, _) :: rest => takeEffect a (extra ++ [word]) rest

def Command.ofWords (words : List String) : Except ArgumentFault Command := do
  takeEffect {} [] (← classifyAll words)

end Typings.CommandLine
