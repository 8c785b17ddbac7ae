import Typings.Text.Visible
import Typings.Text.Quoted

/-! # Text shown in a message

Messages show a path or a value between quotes so that it can be told from the words around it:
single quotes, unless the text holds a single quote and no double quote. Backslashes, the quote in
use and characters that would not show are escaped.
-/

namespace Typings.Text

/-- The lower-case hexadecimal digits of a number, the given count of them. -/
def hexDigits : Nat → Nat → List Char
  | 0, _ => []
  | count + 1, n => hexDigits count (n / 16) ++ [hexDigit (n % 16)]

namespace Shown

def escape (quote : Char) (c : Char) : List Char :=
  if c = quote || c = '\\' then ['\\', c]
  else if c = '\n' then ['\\', 'n']
  else if c = '\r' then ['\\', 'r']
  else if c = '\t' then ['\\', 't']
  else if isVisible c then [c]
  else if c.toNat < 0x100 then '\\' :: 'x' :: hexDigits 2 c.toNat
  else if c.toNat < 0x10000 then '\\' :: 'u' :: hexDigits 4 c.toNat
  else '\\' :: 'U' :: hexDigits 8 c.toNat

def quoteFor (cs : List Char) : Char :=
  if cs.contains '\x27' && !cs.contains '\x22' then '\x22' else '\x27'

end Shown

def shown (s : String) : String :=
  let q := Shown.quoteFor s.toList
  String.ofList (q :: s.toList.flatMap (Shown.escape q) ++ [q])

end Typings.Text
