import Typings.Naming
import Typings.Proofs.Script.Machine

/-!
# Tokens of TypeScript

A scanner for the tokens that declarations are made of, one character at a time. Whatever it has no
state for (templates, regular expressions, names beyond ASCII) it refuses.
-/

namespace Typings.Script

inductive Token where
  | word (name : String)
  | number (text : String)
  /-- What stands between two quotation marks, escapes and all. -/
  | quoted (mark : Char) (body : String)
  | punct (c : Char)
  | comment (body : String)
  deriving DecidableEq, Repr

def Token.isComment : Token → Bool
  | .comment _ => true
  | _ => false

/-- The tokens that are no comments. -/
def code (ts : List Token) : List Token := ts.filter fun t => !t.isComment

def comments (ts : List Token) : List Token := ts.filter Token.isComment

/-! ## Characters -/

/-- A name may hold a dollar sign besides word characters. -/
def isNamePart (c : Char) : Bool := Naming.isWord c || c == '$'

def opensName (c : Char) : Bool := Naming.isNameStart c || c == '$'

def isSpace (c : Char) : Bool :=
  c == ' ' || c == '\n' || c == '\r' || c == '\t' || c == '\x0b' || c == '\x0c' || c == '\xa0'

def isLineEnd (c : Char) : Bool := c == '\n' || c == '\r' || c == '\u2028' || c == '\u2029'

def isPunct (c : Char) : Bool := "{}()[]<>:;,?|&=-".toList.contains c

/-- Characters that cannot go on with a name or a number. -/
def isBoundary (c : Char) : Bool := !isNamePart c && c != '.'

/-! ## Numbers -/

inductive NumberPart where
  | whole
  | fraction
  | mark
  | sign
  | exponent
  deriving DecidableEq, Repr

def NumberPart.next : NumberPart → Char → Option NumberPart
  | .whole, c =>
    if c.isDigit then some .whole
    else if c = '.' then some .fraction
    else if c = 'e' || c = 'E' then some .mark
    else none
  | .fraction, c =>
    if c.isDigit then some .fraction else if c = 'e' || c = 'E' then some .mark else none
  | .mark, c => if c.isDigit then some .exponent else if c = '+' || c = '-' then some .sign else none
  | .sign, c => if c.isDigit then some .exponent else none
  | .exponent, c => if c.isDigit then some .exponent else none

def NumberPart.isComplete : NumberPart → Bool
  | .whole | .fraction | .exponent => true
  | .mark | .sign => false

/-! ## The scanner -/

inductive State where
  | between
  | word (read : List Char)
  | number (part : NumberPart) (read : List Char)
  | quoted (mark : Char) (read : List Char)
  /-- After a backslash between quotation marks. -/
  | escaped (mark : Char) (read : List Char)
  | slash
  | block (read : List Char)
  /-- After a star in a block comment. -/
  | blockStar (read : List Char)
  | line (read : List Char)
  deriving DecidableEq, Repr

abbrev Scanned := Reached State Token

/-- Reads a character that stands between tokens. -/
def enter (c : Char) : Option Scanned :=
  if opensName c then some (.word [c], [])
  else if c.isDigit then some (.number .whole [c], [])
  else if isSpace c then some (.between, [])
  else if c = '\x22' || c = '\x27' then some (.quoted c [], [])
  else if c = '/' then some (.slash, [])
  else if isPunct c then some (.between, [Token.punct c])
  else none

def step : State → Char → Option Scanned
  | .between, c => enter c
  | .word read, c =>
    if isNamePart c then some (.word (read ++ [c]), [])
    else (enter c).map (Reached.after [Token.word (String.ofList read)])
  | .number part read, c =>
    match part.next c with
    | some more => some (.number more (read ++ [c]), [])
    | none =>
      if part.isComplete && isBoundary c then
        (enter c).map (Reached.after [Token.number (String.ofList read)])
      else none
  | .quoted mark read, c =>
    if c = mark then some (.between, [Token.quoted mark (String.ofList read)])
    else if c = '\\' then some (.escaped mark read, [])
    else if c = '\n' || c = '\r' then none
    else some (.quoted mark (read ++ [c]), [])
  | .escaped mark read, c => some (.quoted mark (read ++ ['\\', c]), [])
  | .slash, c => if c = '*' then some (.block [], []) else if c = '/' then some (.line [], []) else none
  | .block read, c => if c = '*' then some (.blockStar read, []) else some (.block (read ++ [c]), [])
  | .blockStar read, c =>
    if c = '/' then some (.between, [Token.comment (String.ofList read)])
    else if c = '*' then some (.blockStar (read ++ ['*']), [])
    else some (.block (read ++ ['*', c]), [])
  | .line read, c =>
    if isLineEnd c then some (.between, [Token.comment (String.ofList read)])
    else some (.line (read ++ [c]), [])

/-- The tokens that the end of the text completes; a text must not end inside a quotation or a block
comment. -/
def State.finish : State → Option (List Token)
  | .between => some []
  | .word read => some [Token.word (String.ofList read)]
  | .number part read => if part.isComplete then some [Token.number (String.ofList read)] else none
  | .line read => some [Token.comment (String.ofList read)]
  | _ => none

def run (s : State) (cs : List Char) : Option Scanned := runWith step s cs

def scan (text : String) : Option (List Token) :=
  (run .between text.toList).bind fun r => r.1.finish.map (r.2 ++ ·)

/-! ## Small laws -/

@[simp] theorem run_nil (s : State) : run s [] = some (s, []) := rfl

theorem run_cons (s : State) (c : Char) (rest : List Char) :
    run s (c :: rest) = (step s c).bind fun r => (run r.1 rest).map (Reached.after r.2) := rfl

theorem run_append (s : State) (xs ys : List Char) :
    run s (xs ++ ys) = (run s xs).bind fun r => (run r.1 ys).map (Reached.after r.2) :=
  runWith_append step s xs ys

@[simp] theorem code_nil : code [] = [] := rfl

@[simp] theorem code_append (ts us : List Token) : code (ts ++ us) = code ts ++ code us :=
  List.filter_append _ _

@[simp] theorem comments_append (ts us : List Token) :
    comments (ts ++ us) = comments ts ++ comments us :=
  List.filter_append _ _

end Typings.Script
