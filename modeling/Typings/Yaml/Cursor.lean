import Typings.Crash

/-! # Reading characters

A cursor stands in a text and knows its line and column, which the notation of settings files gives
a meaning to. Reading either goes on behind what was read or stops with a fault.
-/

namespace Typings.Yaml

/-- Why a document cannot be read: it breaks the rules of the notation, or one of its values cannot
exist. -/
inductive Fault where
  | malformed
  | crashed (crash : Crash)
  deriving DecidableEq, Repr

/-! ## Characters -/

def isBreak (c : Char) : Bool := c == '\n' || c == '\r' || c == '\x85' || c == '\u2028' || c == '\u2029'

def isBlank (c : Char) : Bool := c == ' ' || c == '\t'

/-- Whether a character may occur in a document at all. -/
def isPrintable (c : Char) : Bool :=
  let n := c.toNat
  n == 9 || n == 10 || n == 13 || (0x20 ≤ n && n ≤ 0x7e) || n == 0x85 || (0xa0 ≤ n && n ≤ 0xfffd) || 0x10000 ≤ n

/-- The letters, digits and marks of anchors, directives and tag handles. -/
def isNameChar (c : Char) : Bool := c.isAlphanum || c == '-' || c == '_'

/-- The end of the text counts as a line end here and below. -/
def endsLine (c : Option Char) : Bool := c.all isBreak

def endsWord (c : Option Char) : Bool := c.all fun c => isBreak c || c == ' '

def endsToken (c : Option Char) : Bool := c.all fun c => isBreak c || isBlank c

/-! ## The cursor -/

structure Cursor where
  /-- What is still to be read. -/
  rest : List Char
  /-- How many characters were read. -/
  index : Nat := 0
  line : Nat := 0
  column : Nat := 0
  deriving Repr

namespace Cursor

def peek (c : Cursor) : Option Char := c.rest.head?

def peekAt (c : Cursor) (n : Nat) : Option Char := (c.rest.drop n).head?

/-- Behind the next character. A byte order mark takes no column, and the two characters of a line
end are one. -/
def next (c : Cursor) : Cursor :=
  match c.rest with
  | [] => c
  | ch :: rest =>
    let index := c.index + 1
    if isBreak ch && !(ch == '\r' && rest.head? == some '\n') then ⟨rest, index, c.line + 1, 0⟩
    else if ch == '\ufeff' then ⟨rest, index, c.line, c.column⟩
    else ⟨rest, index, c.line, c.column + 1⟩

def skip (c : Cursor) : Nat → Cursor
  | 0 => c
  | n + 1 => c.next.skip n

/-- Whether a line with three dashes or three points follows, which separates documents. -/
def atSeparator (c : Cursor) : Bool :=
  match c.rest with
  | '-' :: '-' :: '-' :: rest => endsToken rest.head?
  | '.' :: '.' :: '.' :: rest => endsToken rest.head?
  | _ => false

end Cursor

/-! ## Reading -/

abbrev Reading := StateT Cursor (Except Fault)

namespace Reading

def fail {α : Type} : Reading α := throw .malformed

def peek : Reading (Option Char) := return (← get).peek

def advance (n : Nat) : Reading Unit := modify fun c => c.skip n

def takeWhile (p : Char → Bool) : Reading (List Char) := do
  let run := (← get).rest.takeWhile p
  advance run.length
  return run

def skipSpaces : Reading Unit := discard (takeWhile (· == ' '))

/-- Reads over a comment, up to the end of its line. -/
def skipComment : Reading Unit := do
  if (← peek) = some '#' then discard (takeWhile fun c => !isBreak c)

/-- Reads one line end, if there is one; the usual ones all count as a line feed. -/
def lineBreak : Reading (List Char) := do
  match (← get).rest with
  | '\r' :: '\n' :: _ => advance 2; return ['\n']
  | c :: _ =>
    if isBreak c then
      advance 1
      return [if c == '\u2028' || c == '\u2029' then c else '\n']
    else return []
  | [] => return []

/-- Fails unless the next character passes the test. -/
def require (p : Option Char → Bool) : Reading Unit := do
  unless p (← peek) do fail

end Reading

end Typings.Yaml
