import Typings.Text.Shown

/-! # UTF-8

Reading bytes as text. A text that cannot be read is reported by the bytes that stop the reading and
by what is wrong with them: a byte that starts no character, a sequence that breaks off, or one that
the end of the data cuts short.
-/

namespace Typings.Text

inductive Utf8Flaw where
  | badStart
  | badContinuation
  | cutShort
  deriving DecidableEq, Repr

/-- Where reading stopped: the first offending byte, its position, how many bytes are concerned, and
why. -/
structure Utf8Fault where
  byte : UInt8
  position : Nat
  count : Nat
  flaw : Utf8Flaw
  deriving DecidableEq, Repr

def Utf8Flaw.message : Utf8Flaw → String
  | .badStart => "invalid start byte"
  | .badContinuation => "invalid continuation byte"
  | .cutShort => "unexpected end of data"

/-- The report names the byte if it is one byte, and the positions otherwise. -/
def Utf8Fault.message (f : Utf8Fault) : String :=
  let subject :=
    if f.count = 1 then
      "byte 0x" ++ String.ofList (hexDigits 2 f.byte.toNat) ++ " in position " ++ toString f.position
    else "bytes in position " ++ toString f.position ++ "-" ++ toString (f.position + f.count - 1)
  "'utf-8' codec can't decode " ++ subject ++ ": " ++ f.flaw.message

namespace Utf8

def isContinuation (b : UInt8) : Bool := 0x80 ≤ b && b < 0xc0

/-- Whether the second byte may follow the first: no overlong form, no surrogate, nothing above
U+10FFFF. -/
def mayFollow (first second : UInt8) : Bool :=
  isContinuation second &&
    (first != 0xe0 || 0xa0 ≤ second) && (first != 0xed || second < 0xa0) &&
    (first != 0xf0 || 0x90 ≤ second) && (first != 0xf4 || second < 0x90)

def payload (b : UInt8) : Nat := b.toNat % 64

def decodeFrom (position : Nat) : List UInt8 → Except Utf8Fault (List Char)
  | [] => .ok []
  | a :: rest =>
    let fault (count : Nat) (flaw : Utf8Flaw) : Except Utf8Fault (List Char) :=
      .error ⟨a, position, count, flaw⟩
    if a < 0x80 then
      (decodeFrom (position + 1) rest).map (Char.ofNat a.toNat :: ·)
    else if a < 0xc2 || 0xf5 ≤ a then fault 1 .badStart
    else match rest with
      | [] => fault 1 .cutShort
      | b :: rest =>
        if !mayFollow a b then fault 1 .badContinuation
        else if a < 0xe0 then
          (decodeFrom (position + 2) rest).map
            (Char.ofNat (a.toNat % 32 * 64 + payload b) :: ·)
        else match rest with
          | [] => fault 2 .cutShort
          | c :: rest =>
            if !isContinuation c then fault 2 .badContinuation
            else if a < 0xf0 then
              (decodeFrom (position + 3) rest).map
                (Char.ofNat ((a.toNat % 16 * 64 + payload b) * 64 + payload c) :: ·)
            else match rest with
              | [] => fault 3 .cutShort
              | d :: rest =>
                if !isContinuation d then fault 3 .badContinuation
                else (decodeFrom (position + 4) rest).map
                  (Char.ofNat (((a.toNat % 8 * 64 + payload b) * 64 + payload c) * 64 + payload d) :: ·)

end Utf8

def readUtf8 (bytes : ByteArray) : Except Utf8Fault String :=
  (Utf8.decodeFrom 0 bytes.toList).map String.ofList

/-- Line ends are read alike: a carriage return, alone or before a line feed, counts as a line feed.
-/
def unifyLineEnds : List Char → List Char
  | '\r' :: '\n' :: rest => '\n' :: unifyLineEnds rest
  | '\r' :: rest => '\n' :: unifyLineEnds rest
  | c :: rest => c :: unifyLineEnds rest
  | [] => []

end Typings.Text
