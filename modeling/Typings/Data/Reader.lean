import Typings.Data
import Typings.Text.Surrogates

/-! # Reading data

Data in the notation of JSON, read strictly: one value with blank space around it. Beyond the
standard, `NaN`, `Infinity` and `-Infinity` are numbers. A number without fraction and exponent is
an integer; a caller may limit its digits.
-/

namespace Typings.Data.Reader

def isSpace (c : Char) : Bool := c == ' ' || c == '\t' || c == '\n' || c == '\r'

def skip (cs : List Char) : List Char := cs.dropWhile isSpace

/-! ## Text -/

def hexValue? (c : Char) : Option Nat :=
  if '0' ≤ c && c ≤ '9' then some (c.toNat - 48)
  else if 'a' ≤ c && c ≤ 'f' then some (c.toNat - 87)
  else if 'A' ≤ c && c ≤ 'F' then some (c.toNat - 55)
  else none

def unit? (a b c d : Char) : Option Nat := do
  return (((← hexValue? a) * 16 + (← hexValue? b)) * 16 + (← hexValue? c)) * 16 + (← hexValue? d)

def unescape? : Char → Option Char
  | '\x22' => some '\x22'
  | '\\' => some '\\'
  | '/' => some '/'
  | 'b' => some '\x08'
  | 'f' => some '\x0c'
  | 'n' => some '\n'
  | 'r' => some '\r'
  | 't' => some '\t'
  | _ => none

/-- The code units of a text up to its closing quote, and what follows the quote. -/
def units : List Char → Option (List Nat × List Char)
  | [] => none
  | '\x22' :: rest => some ([], rest)
  | '\\' :: 'u' :: a :: b :: c :: d :: rest => do
    let u ← unit? a b c d
    let (us, rest) ← units rest
    return (u :: us, rest)
  | '\\' :: e :: rest => do
    let c ← unescape? e
    let (us, rest) ← units rest
    return (c.toNat :: us, rest)
  | c :: rest =>
    if c = '\\' || c.toNat < 0x20 then none
    else do
      let (us, rest) ← units rest
      return (c.toNat :: us, rest)

/-- The characters that code units stand for: a high and a low surrogate in a row are one character.
-/
def joinUnits [LoneSurrogates] : List Nat → List Char
  | [] => []
  | [u] => [LoneSurrogates.ofCode u]
  | high :: low :: rest =>
    if 0xd800 ≤ high && high < 0xdc00 && 0xdc00 ≤ low && low < 0xe000 then
      Char.ofNat (0x10000 + (high - 0xd800) * 0x400 + (low - 0xdc00)) :: joinUnits rest
    else LoneSurrogates.ofCode high :: joinUnits (low :: rest)

/-! ## Numbers -/

def digitsValue (cs : List Char) : Nat := cs.foldl (fun n c => 10 * n + (c.toNat - 48)) 0

/-- The longest run of decimal digits, and the rest. -/
def digits (cs : List Char) : List Char × List Char := cs.span Char.isDigit

/-- A fraction part: its digits, if a point is followed by any. -/
def fraction : List Char → List Char × List Char
  | '.' :: rest =>
    match digits rest with
    | ([], _) => ([], '.' :: rest)
    | (ds, rest) => (ds, rest)
  | cs => ([], cs)

/-- An exponent part, if the letter and an optional sign are followed by digits. -/
def exponent (cs : List Char) : Option (Int × List Char) :=
  match cs with
  | e :: rest =>
    if e = 'e' || e = 'E' then
      let (negative, rest) := match rest with
        | '-' :: rest => (true, rest)
        | '+' :: rest => (false, rest)
        | rest => (false, rest)
      match digits rest with
      | ([], _) => none
      | (ds, rest) => some (if negative then -(digitsValue ds : Int) else digitsValue ds, rest)
    else none
  | [] => none

/-- The digits before the point: a single zero, or digits that start with another one. -/
def whole : List Char → Option (List Char × List Char)
  | '0' :: rest => some (['0'], rest)
  | cs =>
    match digits cs with
    | ([], _) => none
    | found => some found

/-- A number after its sign. -/
def number (limit : Option Nat) (negative : Bool) (cs : List Char) : Option (Data × List Char) := do
  let (ws, rest) ← whole cs
  match fraction rest, exponent (fraction rest).2 with
  | ([], _), none =>
    if limit.any (· < ws.length) then none
    else
      let n : Int := digitsValue ws
      return (.int (if negative then -n else n), rest)
  | (fs, rest), none => return (.double (.ofDecimal negative (digitsValue (ws ++ fs)) (-fs.length)), rest)
  | (fs, _), some (e, rest) =>
    return (.double (.ofDecimal negative (digitsValue (ws ++ fs)) (e - fs.length)), rest)

def word (limit : Option Nat) : List Char → Option (Data × List Char)
  | 'n' :: 'u' :: 'l' :: 'l' :: rest => some (.null, rest)
  | 't' :: 'r' :: 'u' :: 'e' :: rest => some (.bool true, rest)
  | 'f' :: 'a' :: 'l' :: 's' :: 'e' :: rest => some (.bool false, rest)
  | 'N' :: 'a' :: 'N' :: rest => some (.double .nan, rest)
  | 'I' :: 'n' :: 'f' :: 'i' :: 'n' :: 'i' :: 't' :: 'y' :: rest => some (.double (.infinite false), rest)
  | '-' :: 'I' :: 'n' :: 'f' :: 'i' :: 'n' :: 'i' :: 't' :: 'y' :: rest =>
    some (.double (.infinite true), rest)
  | '-' :: rest => number limit true rest
  | cs => number limit false cs

/-! ## Values -/

mutual

/-- A value at the start of the characters, with at most `fuel` values and separators in it. -/
def value [LoneSurrogates] (limit : Option Nat) : Nat → List Char → Option (Data × List Char)
  | 0, _ => none
  | fuel + 1, cs =>
    match cs with
    | '\x22' :: rest => do
      let (us, rest) ← units rest
      return (.text (String.ofList (joinUnits us)), rest)
    | '[' :: rest =>
      match skip rest with
      | ']' :: rest => some (.list [], rest)
      | rest => do
        let (items, rest) ← items limit fuel rest
        return (.list items, rest)
    | '{' :: rest =>
      match skip rest with
      | '}' :: rest => some (.object [], rest)
      | rest => do
        let (members, rest) ← members limit fuel [] rest
        return (.object members, rest)
    | cs => word limit cs

def items [LoneSurrogates] (limit : Option Nat) : Nat → List Char → Option (List Data × List Char)
  | 0, _ => none
  | fuel + 1, cs => do
    let (v, rest) ← value limit fuel cs
    match skip rest with
    | ',' :: rest =>
      let (vs, rest) ← items limit fuel (skip rest)
      return (v :: vs, rest)
    | ']' :: rest => return ([v], rest)
    | _ => none

/-- The members of an object up to its end, added to those before. -/
def members [LoneSurrogates] (limit : Option Nat) : Nat → Members → List Char → Option (Members × List Char)
  | 0, _, _ => none
  | fuel + 1, before, cs =>
    match cs with
    | '\x22' :: rest => do
      let (us, rest) ← units rest
      match skip rest with
      | ':' :: rest =>
        let (v, rest) ← value limit fuel (skip rest)
        let before := Members.put (String.ofList (joinUnits us)) v before
        match skip rest with
        | ',' :: rest => members limit fuel before (skip rest)
        | '}' :: rest => return (before, rest)
        | _ => none
      | _ => none
    | _ => none

end

end Reader

/-- The value that a text writes, if it writes one. No integer in it may have more digits than the
limit. -/
def read? [LoneSurrogates] (limit : Option Nat) (s : String) : Option Data := do
  let cs := s.toList
  let (v, rest) ← Reader.value limit (2 * cs.length + 1) (Reader.skip cs)
  if (Reader.skip rest).isEmpty then return v else none

end Typings.Data
