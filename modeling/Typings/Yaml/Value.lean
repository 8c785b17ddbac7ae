import Typings.Acceptance
import Typings.Text.Blank
import Typings.Text.Digit
import Typings.Text.Shown
import Typings.Yaml.Tag

/-! # Values

The value of a text under its tag. Spelling a number or a date under a tag that asks for one is not
enough: the number has to have digits, and the date has to exist.
-/

namespace Typings.Yaml

inductive Value where
  | null
  | bool (value : Bool)
  | int (value : Int)
  | double (value : Double)
  | text (value : String)
  | moment (value : Moment)
  | bytes (content : List UInt8)
  /-- A mapping, whose pairs are looked at separately. -/
  | mapping
  /-- Any other collection. -/
  | collection
  deriving DecidableEq, Repr

/-! ## Integers -/

def crash {α : Type} (kind : CrashKind) (text : String) : Except Fault α := .error (.crashed ⟨kind, text⟩)

def withoutLines (cs : List Char) : List Char := cs.filter (· != '_')

def isNegative (cs : List Char) : Bool := cs.head? == some '-'

def digitValue? (base : Nat) (c : Char) : Option Nat := (Data.Reader.hexValue? c).filter (· < base)

/-- The letter that may follow a zero in front of digits to a base. -/
def baseLetters : Nat → List Char
  | 2 => ['b', 'B']
  | 8 => ['o', 'O']
  | 16 => ['x', 'X']
  | _ => []

def dropBaseMark (base : Nat) : List Char → List Char
  | '0' :: c :: rest => if (baseLetters base).contains c then rest else '0' :: c :: rest
  | cs => cs

/-- The longest decimal integer, in digits. -/
def decimalLimit : Nat := 4300

def readInt (base : Nat) (cs : List Char) : Except Fault Int :=
  let inner := (Text.dropBlankEnd (Text.dropBlank cs)).map Text.usualDigit
  let digits := dropBaseMark base (Tag.dropSign inner)
  match digits.mapM (digitValue? base) with
  | some (d :: ds) =>
    if base = 10 && decimalLimit < digits.length then
      crash .value <| "Exceeds the limit (" ++ toString decimalLimit ++
        " digits) for integer string conversion: value has " ++ toString digits.length ++
        " digits; use sys.set_int_max_str_digits() to increase the limit"
    else
      let n := (d :: ds).foldl (fun n d => n * base + d) 0
      .ok (if isNegative inner then -(n : Int) else n)
  | _ => crash .value <| "invalid literal for int() with base " ++ toString base ++ ": " ++
      Text.shown (String.ofList cs)

def colonParts (cs : List Char) : List (List Char) := cs.splitOn ':'

def intValue (s : String) : Except Fault Int := do
  let cs := withoutLines s.toList
  if cs.isEmpty then crash .range "string index out of range"
  let rest := Tag.dropSign cs
  let n ← match rest with
    | [] => crash .range "string index out of range"
    | '0' :: 'b' :: digits => readInt 2 digits
    | '0' :: 'x' :: digits => readInt 16 digits
    | ['0'] => pure 0
    | '0' :: _ => readInt 8 rest
    | _ =>
      if rest.contains ':' then do
        let parts ← (colonParts rest).mapM (readInt 10)
        pure (parts.foldl (fun n part => n * 60 + part) 0)
      else readInt 10 rest
  return if isNegative cs then -n else n

/-! ## Doubles -/

/-- The double that unsigned characters write: digits with a point among them, and perhaps an
exponent. -/
def unsignedDouble? (negative : Bool) (cs : List Char) : Option Double :=
  let (ws, rest) := Data.Reader.digits cs
  let (fs, rest) := match rest with
    | '.' :: rest => Data.Reader.digits rest
    | rest => ([], rest)
  if ws.isEmpty && fs.isEmpty then none
  else
    let read (e : Int) : Double := .ofDecimal negative (Data.Reader.digitsValue (ws ++ fs)) (e - fs.length)
    match rest, Data.Reader.exponent rest with
    | [], _ => some (read 0)
    | _, some (e, []) => some (read e)
    | _, _ => none

def readDouble (cs : List Char) : Except Fault Double :=
  let inner := (Text.dropBlankEnd (Text.dropBlank cs)).map Text.usualDigit
  let negative := isNegative inner
  let rest := Tag.dropSign inner
  let word := String.ofList rest
  if word = "inf" || word = "infinity" then .ok (.infinite negative)
  else if word = "nan" then .ok .nan
  else
    match unsignedDouble? negative rest with
    | some x => .ok x
    | none => crash .value ("could not convert string to float: " ++ Text.shown (String.ofList cs))

/-- Parts of base sixty, the last one first, added up with their weights. A weight has to be a double
itself. -/
def weightedSum : Nat → Double → List Double → Except Fault Double
  | _, total, [] => .ok total
  | weight, total, x :: rest =>
    match Double.ofInt weight with
    | .infinite _ => crash .overflow "int too large to convert to float"
    | w => weightedSum (weight * 60) (total.add (x.mul w)) rest

def doubleValue (s : String) : Except Fault Double := do
  let cs := (withoutLines s.toList).map Char.toLower
  if cs.isEmpty then crash .range "string index out of range"
  let rest := Tag.dropSign cs
  let x ←
    if rest = ".inf".toList then pure (Double.infinite false)
    else if rest = ".nan".toList then pure .nan
    else if rest.contains ':' then do
      let parts ← (colonParts rest).mapM readDouble
      weightedSum 1 (.zero false) parts.reverse
    else readDouble rest
  return if isNegative cs then x.neg else x

/-! ## Bytes -/

def sextet? (c : Char) : Option Nat :=
  if 'A' ≤ c && c ≤ 'Z' then some (c.toNat - 65)
  else if 'a' ≤ c && c ≤ 'z' then some (c.toNat - 71)
  else if c.isDigit then some (c.toNat + 4)
  else if c = '+' then some 62
  else if c = '/' then some 63
  else none

/-- The groups of six bits that characters write, four to a quad, up to the padding of the last
quad. Characters that write nothing are skipped; a quad without its padding is none. -/
def sextets? : Nat → Nat → List Char → Option (List Nat)
  | filled, _, [] => if filled = 0 then some [] else none
  | filled, pads, c :: rest =>
    if c = '=' then
      if 2 ≤ filled then
        if 4 ≤ filled + pads + 1 then some [] else sextets? filled (pads + 1) rest
      else sextets? filled pads rest
    else
      match sextet? c with
      | some n => (sextets? ((filled + 1) % 4) 0 rest).map (n :: ·)
      | none => sextets? filled pads rest

def packSextets : List Nat → List UInt8
  | a :: b :: c :: d :: rest =>
    UInt8.ofNat (a * 4 + b / 16) :: UInt8.ofNat (b * 16 + c / 4) :: UInt8.ofNat (c * 64 + d) :: packSextets rest
  | [a, b, c] => [UInt8.ofNat (a * 4 + b / 16), UInt8.ofNat (b * 16 + c / 4)]
  | [a, b] => [UInt8.ofNat (a * 4 + b / 16)]
  | _ => []

def bytesValue (s : String) : Except Fault (List UInt8) :=
  if s.toList.all fun c => c.toNat < 128 then
    match sextets? 0 0 s.toList with
    | some groups => .ok (packSextets groups)
    | none => .error .malformed
  else .error .malformed

/-! ## Values of texts -/

def booleanValue (s : String) : Except Fault Bool :=
  match Tag.booleanWords.lookup s.toLower with
  | some b => .ok b
  | none => crash .lookup (Text.shown s.toLower)

/-- The value of a text under a tag for single values; there is none under the tags for marks and
collections. -/
def Value.ofText (tag : Tag) (s : String) : Except Fault Value :=
  match tag with
  | .null => .ok .null
  | .boolean => .bool <$> booleanValue s
  | .int => .int <$> intValue s
  | .float => .double <$> doubleValue s
  | .moment =>
    match Moment.ofText? s.toList with
    | some m => .moment <$> m.check
    | none => crash .attribute "'NoneType' object has no attribute 'groupdict'"
  | .text => .ok (.text s)
  | .bytes => .bytes <$> bytesValue s
  | _ => .error .malformed

namespace Value

/-- Whether a value can be a key: collections cannot. -/
def isKey : Value → Bool
  | .mapping => false
  | .collection => false
  | _ => true

/-- The number that a value is for the purpose of comparing keys. -/
def keyNumber? : Value → Option Int
  | .bool b => some (if b then 1 else 0)
  | .int n => some n
  | .double x => x.toInt?
  | _ => none

/-- Whether two values are the same key: numbers are by their value, and what is not a number is
never the same. -/
def sameKey (a b : Value) : Bool :=
  match a.keyNumber?, b.keyNumber? with
  | some m, some n => m == n
  | none, none => a == b && a != .double .nan
  | _, _ => false

def scalar : Value → Scalar
  | .null => .null
  | .bool b => .bool b
  | .int n => .int n
  | .double x => .double x
  | .text s => .text s
  | .bytes content => .bytes content
  | _ => .composite

def shownByte (b : UInt8) : List Char :=
  let c := Char.ofNat b.toNat
  if b < 0x80 then Text.Shown.escape '\x27' c else '\\' :: 'x' :: Text.hexDigits 2 b.toNat

/-- A key that is no text, as a report names it. -/
def report : Value → String
  | .null => "None"
  | .bool b => if b then "1" else "0"
  | .int n => toString n
  | .double x => x.text
  | .text s => s
  | .moment m => m.shown
  | .bytes content => "b'" ++ String.ofList (content.flatMap shownByte) ++ "'"
  | .mapping => ""
  | .collection => ""

end Value

end Typings.Yaml
