import Typings.Text.Blank

/-! # Statements of an environment file

An environment file is a sequence of statements: assignments, names without a value, comments and
empty lines. A statement that cannot be read is skipped to the end of its line.
-/

namespace Typings.EnvFile

inductive Content where
  /-- A name and its value; a name alone has none. -/
  | assignment (key : String) (value : Option String)
  /-- A comment, or nothing at all. -/
  | nothing
  | unreadable
  deriving DecidableEq, Repr

/-- A statement, and the line at which it begins, with the empty lines before it. -/
structure Statement where
  line : Nat
  content : Content
  deriving DecidableEq, Repr

/-! ## Parts of a statement -/

/-- Reading either goes on with the rest or stops at a place in the text. -/
abbrev Step (α : Type) := Except (List Char) (α × List Char)

def isLineEnd (c : Char) : Bool := c == '\n' || c == '\r'

def skipInline (cs : List Char) : List Char := cs.dropWhile Text.isInlineBlank

/-- Without the word `export`, if blank space follows it. -/
def skipExport (cs : List Char) : List Char :=
  match cs with
  | 'e' :: 'x' :: 'p' :: 'o' :: 'r' :: 't' :: c :: rest => if Text.isInlineBlank c then skipInline rest else cs
  | _ => cs

/-- The key of a statement: none in a comment, otherwise quoted or a run up to an equals sign, a
hash or a blank. -/
def key (cs : List Char) : Step (Option String) :=
  match cs with
  | '#' :: _ => .ok (none, cs)
  | '\x27' :: rest =>
    match rest.span (· != '\x27') with
    | (c :: run, '\x27' :: rest) => .ok (some (String.ofList (c :: run)), rest)
    | _ => .error cs
  | _ =>
    match cs.span fun c => !(c == '=' || c == '#' || Text.isBlank c) with
    | ([], _) => .error cs
    | (run, rest) => .ok (some (String.ofList run), rest)

/-- The text up to the quote that closes it. A quote after a backslash closes it only if no other
does. -/
def quotedEnd (quote : Char) (fallback : Option (List Char × List Char)) :
    List Char → List Char → Option (List Char × List Char)
  | _, [] => fallback
  | done, '\\' :: c :: rest =>
    if c = quote then quotedEnd quote (some (done ++ ['\\'], rest)) (done ++ ['\\', c]) rest
    else quotedEnd quote fallback (done ++ ['\\']) (c :: rest)
  | done, c :: rest => if c = quote then some (done, rest) else quotedEnd quote fallback (done ++ [c]) rest

def doubleEscapes : List (Char × Char) := [('\\', '\\'), ('\x27', '\x27'), ('\x22', '\x22'), ('a', '\x07'),
  ('b', '\x08'), ('f', '\x0c'), ('n', '\n'), ('r', '\r'), ('t', '\t'), ('v', '\x0b')]

def singleEscapes : List (Char × Char) := [('\\', '\\'), ('\x27', '\x27')]

/-- Replaces escapes; a backslash before any other character stays. -/
def unescape (escapes : List (Char × Char)) : List Char → List Char
  | '\\' :: c :: rest =>
    match escapes.lookup c with
    | some plain => plain :: unescape escapes rest
    | none => '\\' :: unescape escapes (c :: rest)
  | c :: rest => c :: unescape escapes rest
  | [] => []

/-- What comes before a hash that follows a blank. -/
def cutComment : List Char → List Char
  | [] => []
  | c :: rest =>
    if Text.isBlank c && (Text.dropBlank rest).head? == some '#' then [] else c :: cutComment rest

def quotedValue (quote : Char) (escapes : List (Char × Char)) (cs : List Char) : Step String :=
  match quotedEnd quote none [] (cs.drop 1) with
  | some (text, rest) => .ok (String.ofList (unescape escapes text), rest)
  | none => .error cs

def value (cs : List Char) : Step String :=
  match cs with
  | '\x27' :: _ => quotedValue '\x27' singleEscapes cs
  | '\x22' :: _ => quotedValue '\x22' doubleEscapes cs
  | _ =>
    let (line, rest) := cs.span fun c => !isLineEnd c
    .ok (String.ofList (Text.dropBlankEnd (cutComment line)), rest)

def valueAfterKey (cs : List Char) : Step (Option String) :=
  match cs with
  | '=' :: rest => (value (skipInline rest)).map fun (v, rest) => (some v, rest)
  | _ => .ok (none, cs)

def skipComment (cs : List Char) : List Char :=
  match skipInline cs with
  | '#' :: rest => rest.dropWhile fun c => !isLineEnd c
  | _ => cs

/-- Without one line end. -/
def dropLineEnd : List Char → List Char
  | '\r' :: '\n' :: rest => rest
  | c :: rest => if isLineEnd c then rest else c :: rest
  | [] => []

/-- The end of a line, where a statement must end. -/
def endOfLine (cs : List Char) : Step Unit :=
  match skipInline cs with
  | [] => .ok ((), [])
  | c :: rest => if isLineEnd c then .ok ((), dropLineEnd (c :: rest)) else .error cs

/-- Without the rest of the line. -/
def dropLine (cs : List Char) : List Char := dropLineEnd (cs.dropWhile fun c => !isLineEnd c)

/-! ## Statements -/

/-- A statement after the blanks before it. -/
def body (cs : List Char) : Except (List Char) (Content × List Char) := do
  let (k, rest) ← key (skipExport cs)
  let (v, rest) ← valueAfterKey (skipInline rest)
  let ((), rest) ← endOfLine (skipComment rest)
  return (match k with
    | some k => .assignment k v
    | none => .nothing, rest)

/-- The first statement, and the text after it. -/
def statement (cs : List Char) : Content × List Char :=
  match Text.dropBlank cs with
  | [] => (.nothing, [])
  | c :: rest =>
    match body (c :: rest) with
    | .ok found => found
    | .error stopped => (.unreadable, dropLine stopped)

/-- How many lines end between a place in a text and a later one. -/
def linesBetween (earlier later : List Char) : Nat :=
  (earlier.take (earlier.length - later.length)).count '\n'

def statementsFrom : Nat → Nat → List Char → List Statement
  | 0, _, _ => []
  | _, _, [] => []
  | fuel + 1, line, cs =>
    let (content, rest) := statement cs
    ⟨line, content⟩ :: statementsFrom fuel (line + linesBetween cs rest) rest

def statements (cs : List Char) : List Statement := statementsFrom cs.length 1 cs

end Typings.EnvFile
