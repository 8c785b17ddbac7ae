/-! # Quoted text

A text between double quotes, as data files and string literal types write it. Quotes, backslashes
and the control characters below U+0020 are escaped; every other character stands for itself.
-/

namespace Typings.Text

def hexDigit (n : Nat) : Char :=
  if n < 10 then Char.ofNat (48 + n) else Char.ofNat (87 + n)

namespace Quoted

def escape (c : Char) : List Char :=
  match c with
  | '\x22' => ['\\', '\x22']
  | '\\' => ['\\', '\\']
  | '\n' => ['\\', 'n']
  | '\r' => ['\\', 'r']
  | '\t' => ['\\', 't']
  | '\x08' => ['\\', 'b']
  | '\x0c' => ['\\', 'f']
  | c =>
    if c.toNat < 0x20 then ['\\', 'u', '0', '0', hexDigit (c.toNat / 16), hexDigit (c.toNat % 16)] else [c]

def encode (cs : List Char) : List Char := cs.flatMap escape

end Quoted

def quote (s : String) : String := String.ofList ('\x22' :: Quoted.encode s.toList ++ ['\x22'])

/-! ## Small laws -/

@[simp] theorem Quoted.encode_nil : Quoted.encode [] = [] := rfl

@[simp] theorem Quoted.encode_cons (c : Char) (cs : List Char) :
    Quoted.encode (c :: cs) = Quoted.escape c ++ Quoted.encode cs := rfl

@[simp] theorem toList_quote (s : String) :
    (quote s).toList = '\x22' :: Quoted.encode s.toList ++ ['\x22'] := by
  simp [quote]

end Typings.Text
