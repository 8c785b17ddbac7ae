import Typings.Yaml.ScalarText
import Typings.Yaml.Token

/-! # From characters to tokens

A mapping's key is known to be one only when its colon is met. Each text that could be a key is
therefore remembered, and the tokens that announce a key are put in before it afterwards. A key
without an announcing mark lies on one line and has at most 1024 characters.
-/

namespace Typings.Yaml

/-- A place where a key may have begun: how many tokens stand before it, and where it is. -/
structure PossibleKey where
  tokensBefore : Nat
  /-- Whether nothing but a key may stand here. -/
  required : Bool
  index : Nat
  line : Nat
  column : Nat
  deriving Repr

/-- Whether a possible key has grown too long. -/
def PossibleKey.isStale (k : PossibleKey) (c : Cursor) : Bool := k.line != c.line || k.index + 1024 < c.index

structure Lexer where
  cursor : Cursor
  tokens : List Token := []
  /-- The column of the innermost block, and those of the blocks around it. -/
  indent : Int := -1
  outer : List Int := []
  /-- How many flow collections are open. -/
  flowLevel : Nat := 0
  /-- Whether a key may begin at the cursor. -/
  keyAllowed : Bool := true
  /-- For each flow level, where a key may have begun. -/
  possible : List (Nat × PossibleKey) := []

namespace Lexer

abbrev Lexing := StateT Lexer (Except Fault)

def fail {α : Type} : Lexing α := throw .malformed

def scan {α : Type} (r : Reading α) : Lexing α := do
  let l ← get
  let (a, cursor) ← (r.run l.cursor : Except Fault (α × Cursor))
  set { l with cursor }
  return a

def emit (t : Token) : Lexing Unit := modify fun l => { l with tokens := l.tokens ++ [t] }

def allowKey (allowed : Bool) : Lexing Unit := modify fun l => { l with keyAllowed := allowed }

def inFlow : Lexing Bool := return (← get).flowLevel != 0

/-! ## Possible keys -/

/-- Forgets the possible keys that satisfy the test; a required one among them is missing its colon.
-/
def forget (p : Nat → PossibleKey → Bool) : Lexing Unit := do
  let l ← get
  if l.possible.any fun (level, k) => p level k && k.required then fail
  set { l with possible := l.possible.filter fun (level, k) => !p level k }

def forgetStale : Lexing Unit := do
  let c := (← get).cursor
  forget fun _ k => k.isStale c

/-- Forgets the possible key of the open collection. -/
def forgetHere : Lexing Unit := do
  let level := (← get).flowLevel
  forget fun other _ => other == level

def rememberKey : Lexing Unit := do
  let l ← get
  let c := l.cursor
  if l.keyAllowed then
    forgetHere
    let required := l.flowLevel == 0 && l.indent == c.column
    let k : PossibleKey := ⟨l.tokens.length, required, c.index, c.line, c.column⟩
    modify fun l => { l with possible := (l.flowLevel, k) :: l.possible }

/-! ## Indentation -/

def closeBlocks (column : Int) : Lexing Unit := do
  let l ← get
  if l.flowLevel = 0 then set (close l.outer l)
where
  close : List Int → Lexer → Lexer
    | [], l => l
    | next :: outer, l =>
      if column < l.indent then
        close outer { l with indent := next, outer, tokens := l.tokens ++ [.blockEnd] }
      else l

/-- Opens a block at a column, unless one is open there; tells whether it did. -/
def openBlock (column : Int) : Lexing Bool := do
  let l ← get
  if l.indent < column then
    set { l with indent := column, outer := l.indent :: l.outer }
    return true
  else return false

/-! ## Marks -/

def mark (width : Nat) (t : Token) : Lexing Unit := do
  scan (Reading.advance width)
  emit t

/-- A mark that ends all open blocks: a directive or a separator of documents. -/
def topLevel (next : Lexing Unit) : Lexing Unit := do
  closeBlocks (-1)
  forgetHere
  allowKey false
  next

def flowStart (t : Token) : Lexing Unit := do
  rememberKey
  modify fun l => { l with flowLevel := l.flowLevel + 1 }
  allowKey true
  mark 1 t

def flowEnd (t : Token) : Lexing Unit := do
  forgetHere
  if (← get).flowLevel = 0 then fail
  modify fun l => { l with flowLevel := l.flowLevel - 1 }
  allowKey false
  mark 1 t

def flowEntry : Lexing Unit := do
  allowKey true
  forgetHere
  mark 1 .flowEntry

/-- Opens a block for a mark, which may stand only where a key may begin. -/
def openFor (t : Token) : Lexing Unit := do
  let l ← get
  if l.flowLevel = 0 then
    unless l.keyAllowed do fail
    if ← openBlock l.cursor.column then emit t

def blockEntry : Lexing Unit := do
  openFor .blockSequence
  allowKey true
  forgetHere
  mark 1 .blockEntry

def keyMark : Lexing Unit := do
  openFor .blockMapping
  allowKey (!(← inFlow))
  forgetHere
  mark 1 .key

/-- A colon. The key before it, if there is one, is announced now. -/
def valueMark : Lexing Unit := do
  let l ← get
  match l.possible.lookup l.flowLevel with
  | some k =>
    let start := if l.flowLevel = 0 && l.indent < k.column then [.blockMapping, .key] else [Token.key]
    modify fun l => { l with
      possible := l.possible.filter fun (level, _) => level != l.flowLevel
      tokens := l.tokens.take k.tokensBefore ++ start ++ l.tokens.drop k.tokensBefore }
    if l.flowLevel = 0 then discard (openBlock k.column)
    allowKey false
  | none =>
    openFor .blockMapping
    allowKey (!(← inFlow))
    forgetHere
  mark 1 .value

/-! ## Texts -/

/-- A token that may be a key, or the start of one. -/
def keyLike (r : Reading Token) : Lexing Unit := do
  rememberKey
  allowKey false
  emit (← scan r)

def plain : Lexing Unit := do
  let l ← get
  rememberKey
  allowKey false
  let (cs, broken) ← scan (plainText (l.flowLevel != 0) (l.indent + 1))
  if broken then allowKey true
  emit (.scalar (String.ofList cs) true)

def quoted [LoneSurrogates] (double : Bool) : Lexing Unit :=
  keyLike do return .scalar (String.ofList (← quotedText double)) false

def block (folded : Bool) : Lexing Unit := do
  allowKey true
  forgetHere
  let cs ← scan (blockText folded (← get).indent)
  emit (.scalar (String.ofList cs) false)

/-! ## Tokens -/

/-- Reads over spaces, comments and empty lines. A key may begin on a new line of a block. -/
def skipToToken : Nat → Lexing Unit
  | 0 => fail
  | fuel + 1 => do
    scan Reading.skipSpaces
    scan Reading.skipComment
    if (← scan Reading.lineBreak).isEmpty then return
    unless ← inFlow do allowKey true
    skipToToken fuel

/-- Whether a plain text begins with the first of two characters. -/
def startsPlain (inFlow : Bool) (c : Char) (next : Option Char) : Bool :=
  !(isBreak c || isBlank c || "-?:,[]{}#&*!|>\x27\x22%@\x60".toList.contains c) ||
    (!endsToken next && (c == '-' || (!inFlow && (c == '?' || c == ':'))))

def token [LoneSurrogates] (c : Char) : Lexing Unit := do
  let l ← get
  let next := l.cursor.peekAt 1
  let flow := l.flowLevel != 0
  let atLineStart := l.cursor.column = 0
  if c == '%' && atLineStart then topLevel (do emit (← scan Token.directiveLine))
  else if atLineStart && l.cursor.atSeparator then
    topLevel (mark 3 (if c == '-' then .documentStart else .documentEnd))
  else if c == '[' then flowStart .flowSequence
  else if c == '{' then flowStart .flowMapping
  else if c == ']' then flowEnd .flowSequenceEnd
  else if c == '}' then flowEnd .flowMappingEnd
  else if c == ',' then flowEntry
  else if c == '-' && endsToken next then blockEntry
  else if c == '?' && (flow || endsToken next) then keyMark
  else if c == ':' && (flow || endsToken next) then valueMark
  else if c == '*' then keyLike (return .alias (← Token.reference))
  else if c == '&' then keyLike (return .anchor (← Token.reference))
  else if c == '!' then keyLike Token.tagText
  else if c == '|' && !flow then block false
  else if c == '>' && !flow then block true
  else if c == '\x27' then quoted false
  else if c == '\x22' then quoted true
  else if startsPlain flow c next then plain
  else fail

/-- Reads one mark or text with the blocks that it opens or closes; tells whether there was one. -/
def step [LoneSurrogates] : Lexing Bool := do
  skipToToken ((← get).cursor.rest.length + 1)
  forgetStale
  closeBlocks (← get).cursor.column
  match (← get).cursor.peek with
  | none =>
    closeBlocks (-1)
    forgetHere
    return false
  | some c =>
    token c
    return true

/-- The tokens that come before all possible keys: what follows cannot change them any more. -/
def ready (l : Lexer) : List Token :=
  let keys := l.possible.filter fun e => !e.2.isStale l.cursor
  l.tokens.take (keys.foldl (fun n e => min n e.2.tokensBefore) l.tokens.length)

end Lexer

/-- What is read of a document text: its tokens, up to a fault if there is one. The fault counts only
once these tokens are used up. -/
structure Scan where
  tokens : List Token
  fault : Option Fault
  deriving DecidableEq, Repr

namespace Scan

def ofLexer [LoneSurrogates] : Nat → Lexer → Scan
  | 0, l => ⟨l.ready, some .malformed⟩
  | fuel + 1, l =>
    match Lexer.step.run l with
    | .error f => ⟨l.ready, some f⟩
    | .ok (true, l) => ofLexer fuel l
    | .ok (false, l) => ⟨l.tokens, none⟩

/-- Scans a document text. A byte order mark at its start is skipped. -/
def ofText [LoneSurrogates] (cs : List Char) : Scan :=
  if cs.all isPrintable then
    let cursor : Cursor := { rest := cs }
    let cursor := if cursor.peek = some '\ufeff' then cursor.next else cursor
    ofLexer (cs.length + 1) { cursor }
  else ⟨[], some .malformed⟩

end Scan

end Typings.Yaml
