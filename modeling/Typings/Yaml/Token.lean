import Typings.Data.Reader
import Typings.Text.Utf8
import Typings.Yaml.Cursor

/-! # Tokens

The marks and texts that a settings document is made of. Blocks of lines, which only their
indentation shows, have tokens for their start and their end as well.
-/

namespace Typings.Yaml

inductive Directive where
  | version (major : Nat)
  | tagPrefix (handle start : String)
  | unknown
  deriving DecidableEq, Repr

inductive Token where
  | directive (d : Directive)
  | documentStart
  | documentEnd
  | blockSequence
  | blockMapping
  | blockEnd
  | flowSequence
  | flowSequenceEnd
  | flowMapping
  | flowMappingEnd
  | blockEntry
  | flowEntry
  | key
  | value
  | alias (name : String)
  | anchor (name : String)
  /-- A tag: its handle, if it has one, and what follows. -/
  | tag (handle : Option String) (suffix : String)
  | scalar (text : String) (plain : Bool)
  deriving DecidableEq, Repr

namespace Token

open Reading

/-! ## Names and addresses -/

/-- A name of one character or more. -/
def name : Reading String := do
  let run ← takeWhile isNameChar
  if run.isEmpty then fail
  return String.ofList run

def isAddressChar (c : Char) : Bool :=
  c.isAlphanum || "-;/?:@&=+$,_.!~*\x27()[]%".toList.contains c

/-- Bytes written as a percent sign and two digits each. -/
def percentBytes : Nat → List Char → Option (List UInt8 × List Char)
  | fuel + 1, '%' :: a :: b :: rest => do
    let high ← Data.Reader.hexValue? a
    let low ← Data.Reader.hexValue? b
    let (more, rest) ← percentBytes fuel rest
    return (UInt8.ofNat (16 * high + low) :: more, rest)
  | _, '%' :: _ => none
  | _, cs => some ([], cs)

def percentText : Reading (List Char) := do
  let before := (← get).rest
  match percentBytes before.length before with
  | none => fail
  | some (bytes, rest) =>
    match Text.Utf8.decodeFrom 0 bytes with
    | .ok cs => advance (before.length - rest.length); return cs
    | .error _ => fail

def addressPieces : Nat → List Char → Reading (List Char)
  | 0, _ => fail
  | fuel + 1, done => do
    let run ← takeWhile fun c => isAddressChar c && c != '%'
    if (← peek) = some '%' then addressPieces fuel (done ++ run ++ (← percentText))
    else return done ++ run

/-- The address in a tag; it is not empty. -/
def address : Reading String := do
  let before := (← get).index
  let cs ← addressPieces ((← get).rest.length + 1) []
  if (← get).index = before then fail
  return String.ofList cs

/-- A tag handle: an exclamation mark, and perhaps a name with another one. -/
def tagHandle : Reading String := do
  if (← peek) ≠ some '!' then fail
  advance 1
  if (← peek) = some ' ' then return "!"
  let run ← takeWhile isNameChar
  if (← peek) ≠ some '!' then fail
  advance 1
  return String.ofList ('!' :: run ++ ['!'])

/-! ## Directives -/

def versionNumber : Reading Nat := do
  let run ← takeWhile Char.isDigit
  if run.isEmpty then fail
  return Data.Reader.digitsValue run

def versionDirective : Reading Directive := do
  skipSpaces
  let major ← versionNumber
  if (← peek) ≠ some '.' then fail
  advance 1
  discard versionNumber
  require endsWord
  return .version major

def tagDirective : Reading Directive := do
  skipSpaces
  let handle ← tagHandle
  if (← peek) ≠ some ' ' then fail
  skipSpaces
  let start ← address
  require endsWord
  return .tagPrefix handle start

def directiveLine : Reading Token := do
  advance 1
  let word ← name
  require endsWord
  let d ← match word with
    | "YAML" => versionDirective
    | "TAG" => tagDirective
    | _ => do
      discard (takeWhile fun c => !isBreak c)
      pure .unknown
  skipSpaces
  skipComment
  require endsLine
  discard lineBreak
  return .directive d

/-! ## Anchors and tags -/

def endsName (c : Option Char) : Bool :=
  endsToken c || c.any fun c => ['?', ':', ',', ']', '}', '%', '@', '\x60'].contains c

/-- The name of an anchor or an alias, from its mark on. -/
def reference : Reading String := do
  advance 1
  let word ← name
  require endsName
  return word

def hasHandle (cs : List Char) : Bool :=
  (cs.takeWhile fun c => !(isBreak c || c == ' ')).contains '!'

/-- A tag, from its exclamation mark on. -/
def tagText : Reading Token := do
  let rest := (← get).rest.drop 1
  let token ←
    if rest.head? = some '<' then do
      advance 2
      let uri ← address
      if (← peek) ≠ some '>' then fail
      advance 1
      pure (Token.tag none uri)
    else if endsToken rest.head? then do
      advance 1
      pure (Token.tag none "!")
    else if hasHandle rest then do
      let handle ← tagHandle
      pure (Token.tag (some handle) (← address))
    else do
      advance 1
      pure (Token.tag (some "!") (← address))
  require endsWord
  return token

end Token

end Typings.Yaml
