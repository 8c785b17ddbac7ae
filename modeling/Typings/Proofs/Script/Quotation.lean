import Typings.Text.Quoted

/-!
# The value of a quotation

What stands between quotation marks is read with its escapes resolved. The value of a quoted text is
that text.
-/

namespace Typings.Script

def hexValue? (c : Char) : Option Nat :=
  if '0' ≤ c && c ≤ '9' then some (c.toNat - 48)
  else if 'a' ≤ c && c ≤ 'f' then some (c.toNat - 87)
  else if 'A' ≤ c && c ≤ 'F' then some (c.toNat - 55)
  else none

def charOf? (n : Nat) : Option Char := if n.isValidChar then some (Char.ofNat n) else none

/-- What a backslash and the character after it stand for. Octal forms are refused; an escaped line
end is nothing. -/
def escaped? (c : Char) : Option (List Char) :=
  if c = 'n' then some ['\n']
  else if c = 'r' then some ['\r']
  else if c = 't' then some ['\t']
  else if c = 'b' then some ['\x08']
  else if c = 'f' then some ['\x0c']
  else if c = 'v' then some ['\x0b']
  else if c = '\n' || c = '\r' || c = '\u2028' || c = '\u2029' then some []
  else if c.isDigit then none
  else some [c]

inductive Decoder where
  | plain
  | escape
  /-- So many hexadecimal digits are still to come; the digits before them have the given value. -/
  | hex (digits value : Nat)
  deriving DecidableEq, Repr

def decode : Decoder → List Char → Option (List Char)
  | .plain, [] => some []
  | .plain, c :: rest => if c = '\\' then decode .escape rest else (decode .plain rest).map (c :: ·)
  | .escape, c :: rest =>
    if c = 'u' then decode (.hex 3 0) rest
    else if c = 'x' then decode (.hex 1 0) rest
    else (escaped? c).bind fun found => (decode .plain rest).map (found ++ ·)
  | .hex more value, c :: rest =>
    (hexValue? c).bind fun digit =>
      match more with
      | 0 => (charOf? (16 * value + digit)).bind fun found => (decode .plain rest).map (found :: ·)
      | more + 1 => decode (.hex more (16 * value + digit)) rest
  | _, [] => none

def valueOf (body : String) : Option String := (decode .plain body.toList).map String.ofList

/-! ## Quoted text is read back -/

theorem hexValue?_hexDigit {n : Nat} (h : n < 16) : hexValue? (Text.hexDigit n) = some n := by
  have hall : ∀ n < 16, hexValue? (Text.hexDigit n) = some n := by decide
  exact hall n h

theorem charOf?_toNat (c : Char) : charOf? c.toNat = some c := by
  have hvalid : c.toNat.isValidChar := c.valid
  rw [charOf?, if_pos hvalid, Char.ofNat_toNat]

theorem decode_control {c : Char} (h : c.toNat < 0x20) (rest : List Char) :
    decode .plain ('\\' :: 'u' :: '0' :: '0' ::
        Text.hexDigit (c.toNat / 16) :: Text.hexDigit (c.toNat % 16) :: rest) =
      (decode .plain rest).map (c :: ·) := by
  have h0 : hexValue? '0' = some 0 := rfl
  have hsum : 16 * (16 * (16 * (16 * 0 + 0) + 0) + c.toNat / 16) + c.toNat % 16 = c.toNat := by omega
  simp only [decode, if_true, h0, Option.bind_some,
    hexValue?_hexDigit (show c.toNat / 16 < 16 by omega),
    hexValue?_hexDigit (show c.toNat % 16 < 16 by omega),
    hsum, charOf?_toNat]

theorem decode_escape (c : Char) (rest : List Char) :
    decode .plain (Text.Quoted.escape c ++ rest) = (decode .plain rest).map (c :: ·) := by
  unfold Text.Quoted.escape
  split
  case h_8 _ hquote hslash _ _ _ _ _ =>
    split
    · exact decode_control ‹_› rest
    · simp only [List.cons_append, List.nil_append, decode]
      rw [if_neg hslash]
  all_goals rfl

theorem decode_encode (cs : List Char) : decode .plain (Text.Quoted.encode cs) = some cs := by
  induction cs with
  | nil => rfl
  | cons c rest ih =>
    rw [Text.Quoted.encode_cons, decode_escape, ih]
    rfl

theorem valueOf_encode (s : String) :
    valueOf (String.ofList (Text.Quoted.encode s.toList)) = some s := by
  rw [valueOf, String.toList_ofList, decode_encode, Option.map_some, String.ofList_toList]

theorem valueOf_plain {s : String} (h : ∀ c ∈ s.toList, c ≠ '\\') : valueOf s = some s := by
  have hdecode (cs : List Char) (hcs : ∀ c ∈ cs, c ≠ '\\') : decode .plain cs = some cs := by
    induction cs with
    | nil => rfl
    | cons c rest ih =>
      rw [decode, if_neg (hcs c List.mem_cons_self), ih fun d hd => hcs d (List.mem_cons_of_mem _ hd)]
      rfl
  rw [valueOf, hdecode s.toList h, Option.map_some, String.ofList_toList]

end Typings.Script
