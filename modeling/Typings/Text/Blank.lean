/-! # Blank space

Which characters count as blank, and how text is trimmed. The same set serves field notes, formatter
output and the assignments of an environment file.
-/

namespace Typings.Text

/-- Blank characters: the tabs and line ends, the information separators, and the spaces of Unicode.
-/
def isBlank (c : Char) : Bool :=
  let n := c.toNat
  (9 ≤ n && n ≤ 13) || (0x1c ≤ n && n ≤ 0x20) || n == 0x85 || n == 0xa0 || n == 0x1680 ||
    (0x2000 ≤ n && n ≤ 0x200a) || n == 0x2028 || n == 0x2029 || n == 0x202f || n == 0x205f || n == 0x3000

def isInlineBlank (c : Char) : Bool := isBlank c && c != '\n' && c != '\r'

def dropBlank (cs : List Char) : List Char := cs.dropWhile isBlank

def dropBlankEnd (cs : List Char) : List Char := (cs.reverse.dropWhile isBlank).reverse

def trim (s : String) : String := String.ofList (dropBlankEnd (dropBlank s.toList))

def allBlank (s : String) : Bool := s.toList.all isBlank

end Typings.Text
