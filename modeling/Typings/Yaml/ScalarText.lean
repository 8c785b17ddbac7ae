import Typings.Data.Reader
import Typings.Text.Surrogates
import Typings.Yaml.Cursor

/-! # The text of scalars

Scalars are written plainly, between quotes, or as a block under a header. In all but the block, a
single line end within the text is read as a space, and further line ends are kept.
-/

namespace Typings.Yaml

open Reading

/-- How line ends between two lines of a text are read: the first one folds. -/
def foldBreaks (first : List Char) (further : List Char) : List Char :=
  if first ≠ ['\n'] then first ++ further
  else if further.isEmpty then [' ']
  else further

/-! ## Plain text -/

/-- Whether a colon before the given character ends a plain text. -/
def endsKey (inFlow : Bool) (c : Option Char) : Bool :=
  endsToken c || (inFlow && c.any fun c => [',', '[', ']', '{', '}'].contains c)

/-- The plain text up to a blank, a colon that ends a key or, in a flow, one of its marks. -/
def plainRun (inFlow : Bool) : List Char → List Char
  | [] => []
  | c :: rest =>
    if isBreak c || isBlank c || (c == ':' && endsKey inFlow rest.head?) ||
        (inFlow && [',', '?', '[', ']', '{', '}'].contains c) then []
    else c :: plainRun inFlow rest

/-- The line ends and leading spaces before the next line of a plain text; nothing if a separator
stops it. -/
def plainBreaks : Nat → List Char → Reading (Option (List Char))
  | 0, _ => fail
  | fuel + 1, breaks => do
    if (← get).atSeparator then return none
    skipSpaces
    match ← lineBreak with
    | [] => return some breaks
    | b => plainBreaks fuel (breaks ++ b)

/-- The space between two pieces of plain text, and whether it holds a line end. -/
def plainSpaces : Reading (List Char × Bool) := do
  let spaces ← takeWhile (· == ' ')
  match ← lineBreak with
  | [] => return (spaces, false)
  | first =>
    match ← plainBreaks ((← get).rest.length + 1) [] with
    | none => return ([], true)
    | some further => return (foldBreaks first further, true)

/-- A plain text, piece by piece: what was read, the space after it, and whether that space holds a
line end. -/
def plainPieces (inFlow : Bool) (indent : Int) : Nat → List Char → List Char → Bool → Reading (List Char × Bool)
  | 0, _, _, _ => fail
  | fuel + 1, done, space, broken => do
    let c ← get
    let run := if c.peek = some '#' then [] else plainRun inFlow c.rest
    if run.isEmpty then return (done, broken)
    advance run.length
    let done := done ++ space ++ run
    let (space, broken) ← plainSpaces
    let c ← get
    if space.isEmpty || c.peek = some '#' || (!inFlow && (c.column : Int) < indent) then return (done, broken)
    plainPieces inFlow indent fuel done space broken

/-- A plain text, and whether it ends after a line end. -/
def plainText (inFlow : Bool) (indent : Int) : Reading (List Char × Bool) := do
  plainPieces inFlow indent ((← get).rest.length + 1) [] [] false

/-! ## Quoted text -/

def unescape? (c : Char) : Option Char :=
  [('0', '\x00'), ('a', '\x07'), ('b', '\x08'), ('t', '\t'), ('\t', '\t'), ('n', '\n'), ('v', '\x0b'),
    ('f', '\x0c'), ('r', '\r'), ('e', '\x1b'), (' ', ' '), ('\x22', '\x22'), ('\\', '\\'), ('/', '/'),
    ('N', '\x85'), ('_', '\xa0'), ('L', '\u2028'), ('P', '\u2029')].lookup c

def escapeWidth? : Char → Option Nat
  | 'x' => some 2
  | 'u' => some 4
  | 'U' => some 8
  | _ => none

/-- The largest number that is tried as a code point. -/
def largestWord : Nat := Nat.pow 2 31 - 1

def ofCodePoint [LoneSurrogates] (n : Nat) : Reading Char :=
  if n < 0x110000 then return LoneSurrogates.ofCode n
  else if n ≤ largestWord then throw (.crashed ⟨.value, "chr() arg not in range(0x110000)"⟩)
  else throw (.crashed ⟨.overflow, "Python int too large to convert to C int"⟩)

def hexNumber? (cs : List Char) : Option Nat :=
  cs.foldl (fun n c => do return (← n) * 16 + (← Data.Reader.hexValue? c)) (some 0)

/-- Empty lines within a quoted text. -/
def quotedBreaks : Nat → List Char → Reading (List Char)
  | 0, _ => fail
  | fuel + 1, breaks => do
    if (← get).atSeparator then fail
    discard (takeWhile isBlank)
    match ← lineBreak with
    | [] => return breaks
    | b => quotedBreaks fuel (breaks ++ b)

/-- An escape, after its backslash. -/
def escaped [LoneSurrogates] : Reading (List Char) := do
  match ← peek with
  | none => fail
  | some c =>
    if let some plain := unescape? c then
      advance 1
      return [plain]
    else if let some width := escapeWidth? c then
      advance 1
      let digits := (← get).rest.take width
      match hexNumber? digits with
      | some n =>
        if digits.length < width then fail
        let ch ← ofCodePoint n
        advance width
        return [ch]
      | none => fail
    else if isBreak c then
      discard lineBreak
      quotedBreaks ((← get).rest.length + 1) []
    else fail

def quotedPieces [LoneSurrogates] (double : Bool) : Nat → List Char → Reading (List Char)
  | 0, _ => fail
  | fuel + 1, done => do
    let run ← takeWhile fun c =>
      !(c == '\x27' || c == '\x22' || c == '\\' || isBlank c || isBreak c)
    let done := done ++ run
    match (← get).rest with
    | [] => fail
    | '\x27' :: '\x27' :: _ =>
      if double then
        advance 1
        quotedPieces double fuel (done ++ ['\x27'])
      else
        advance 2
        quotedPieces double fuel (done ++ ['\x27'])
    | '\x27' :: _ =>
      advance 1
      if double then quotedPieces double fuel (done ++ ['\x27']) else return done
    | '\x22' :: _ =>
      advance 1
      if double then return done else quotedPieces double fuel (done ++ ['\x22'])
    | '\\' :: _ =>
      advance 1
      if double then quotedPieces double fuel (done ++ (← escaped))
      else quotedPieces double fuel (done ++ ['\\'])
    | _ =>
      let blanks ← takeWhile isBlank
      match ← lineBreak with
      | [] =>
        if (← peek).isNone then fail
        quotedPieces double fuel (done ++ blanks)
      | first =>
        let further ← quotedBreaks ((← get).rest.length + 1) []
        quotedPieces double fuel (done ++ foldBreaks first further)

/-- A quoted text, from its opening quote on. -/
def quotedText [LoneSurrogates] (double : Bool) : Reading (List Char) := do
  advance 1
  quotedPieces double ((← get).rest.length + 1) []

/-! ## Block text -/

/-- What the header of a block says about the line ends after its text. -/
inductive Chomping where
  | strip
  | clip
  | keep
  deriving DecidableEq, Repr

def chomping? : Option Char → Option Chomping
  | some '+' => some .keep
  | some '-' => some .strip
  | _ => none

/-- An indentation step given in a header; zero is none. -/
def blockStep : Reading (Option Nat) := do
  match ← peek with
  | some c =>
    if c.isDigit then
      if c == '0' then fail
      advance 1
      return some (c.toNat - 48)
    else return none
  | none => return none

def blockHeader : Reading (Chomping × Option Nat) := do
  advance 1
  match chomping? (← peek) with
  | some chomping =>
    advance 1
    let step ← blockStep
    require endsWord
    return (chomping, step)
  | none =>
    let step ← blockStep
    match step, chomping? (← peek) with
    | some _, some chomping =>
      advance 1
      require endsWord
      return (chomping, step)
    | _, _ =>
      require endsWord
      return (.clip, step)

/-- The rest of a line that may hold nothing but a comment. -/
def ignoredLine : Reading Unit := do
  skipSpaces
  skipComment
  require endsLine
  discard lineBreak

/-- The empty lines before a block, and the widest indentation among them and its first line. -/
def blockIndentation : Nat → List Char → Nat → Reading (List Char × Nat)
  | 0, _, _ => fail
  | fuel + 1, breaks, widest => do
    skipSpaces
    let widest := max widest (← get).column
    match ← lineBreak with
    | [] => return (breaks, widest)
    | b => blockIndentation fuel (breaks ++ b) widest

def skipIndent (indent : Nat) : Reading Unit := do
  let c ← get
  let run := c.rest.takeWhile (· == ' ')
  advance (min run.length (indent - c.column))

def blockBreaks (indent : Nat) : Nat → List Char → Reading (List Char)
  | 0, _ => fail
  | fuel + 1, breaks => do
    skipIndent indent
    match ← lineBreak with
    | [] => return breaks
    | b => blockBreaks indent fuel (breaks ++ b)

def atBlockLine (indent : Nat) : Reading Bool := do
  let c ← get
  return c.column == indent && c.peek.isSome

/-- The lines of a block: what was read, the line end after it, and the empty lines after that. -/
def blockLines (folded : Bool) (indent : Nat) :
    Nat → List Char → List Char → Reading (List Char × List Char × List Char)
  | 0, _, _ => fail
  | fuel + 1, done, breaks => do
    let leadingText := !(← peek).any isBlank
    let line ← takeWhile fun c => !isBreak c
    let done := done ++ breaks ++ line
    let lineEnd ← lineBreak
    let breaks ← blockBreaks indent ((← get).rest.length + 1) []
    if ← atBlockLine indent then
      let textFollows := !(← peek).any isBlank
      if folded && lineEnd = ['\n'] && leadingText && textFollows then
        blockLines folded indent fuel (if breaks.isEmpty then done ++ [' '] else done) breaks
      else blockLines folded indent fuel (done ++ lineEnd) breaks
    else return (done, lineEnd, breaks)

/-- A block text under a parent with the given indentation, from its header on. -/
def blockText (folded : Bool) (parentIndent : Int) : Reading (List Char) := do
  let (chomping, step) ← blockHeader
  ignoredLine
  let least := max 1 (parentIndent + 1).toNat
  let (breaks, indent) ← do
    match step with
    | some step =>
      let indent := least + step - 1
      let breaks ← blockBreaks indent ((← get).rest.length + 1) []
      pure (breaks, indent)
    | none =>
      let (breaks, widest) ← blockIndentation ((← get).rest.length + 1) [] 0
      pure (breaks, max least widest)
  let (done, lineEnd, breaks) ←
    if ← atBlockLine indent then blockLines folded indent ((← get).rest.length + 1) [] breaks
    else pure ([], [], breaks)
  match chomping with
  | .strip => return done
  | .clip => return done ++ lineEnd
  | .keep => return done ++ lineEnd ++ breaks

end Typings.Yaml
