import Typings.Text.Shown

/-! # Surrogates

A surrogate is half of a character that takes two code units. An escape can write one without the
other half, and then a text holds it alone. Such a text can be handled like any other, but no
encoding has bytes for it.
-/

namespace Typings

/-- Whether a code point is half of a character. -/
def isSurrogate (n : Nat) : Bool := 0xd800 ≤ n && n < 0xe000

/-- Characters that stand for surrogates in a text. They are left open but for their plane, which is
not the first one: a text that holds some of them in their own right is read with others. -/
class LoneSurrogates where
  standIn : Nat → Char
  /-- The surrogate that a character stands for, if it stands for one. -/
  lone? : Char → Option Nat
  lone?_eq_some_iff (c : Char) (n : Nat) : lone? c = some n ↔ isSurrogate n = true ∧ standIn n = c
  le_toNat_standIn (n : Nat) : isSurrogate n = true → 0x10000 ≤ (standIn n).toNat

theorem toNat_ofNat_of_isValidChar {n : Nat} (h : n.isValidChar) : (Char.ofNat n).toNat = n := by
  rw [Char.ofNat, dif_pos h]
  rfl

namespace LoneSurrogates

/-- The last characters of all, which are for private use. -/
instance : LoneSurrogates where
  standIn n := Char.ofNat (n + 0x102000)
  lone? c := if 0x10f800 ≤ c.toNat then some (c.toNat - 0x102000) else none
  lone?_eq_some_iff c n := by
    have hc : c.toNat < 0x110000 := by
      rcases c.valid with h | h
      · exact Nat.lt_trans h (by decide)
      · exact h.2
    simp only [isSurrogate, Bool.and_eq_true, decide_eq_true_eq]
    constructor
    · intro h
      split at h
      · have hn := Option.some.inj h
        refine ⟨by omega, ?_⟩
        rw [← hn, Nat.sub_add_cancel (by omega), Char.ofNat_toNat]
      · exact absurd h nofun
    · rintro ⟨hn, rfl⟩
      have hvalid : (n + 0x102000).isValidChar := Or.inr (by omega)
      rw [toNat_ofNat_of_isValidChar hvalid, if_pos (by omega), Nat.add_sub_cancel]
  le_toNat_standIn n h := by
    simp only [isSurrogate, Bool.and_eq_true, decide_eq_true_eq] at h
    have hvalid : (n + 0x102000).isValidChar := Or.inr (by omega)
    rw [toNat_ofNat_of_isValidChar hvalid]
    omega

variable [LoneSurrogates]

/-- The character of a code point, a surrogate or not. -/
def ofCode (n : Nat) : Char := if isSurrogate n then standIn n else Char.ofNat n

theorem lone?_standIn {n : Nat} (h : isSurrogate n = true) : lone? (standIn n) = some n :=
  (lone?_eq_some_iff _ n).mpr ⟨h, rfl⟩

theorem lone?_of_toNat_lt {c : Char} (h : c.toNat < 0x10000) : lone? c = none := by
  cases hc : lone? c with
  | none => rfl
  | some n =>
    obtain ⟨hn, rfl⟩ := (lone?_eq_some_iff c n).mp hc
    exact absurd (le_toNat_standIn n hn) (Nat.not_le.mpr h)

end LoneSurrogates

namespace Text

open LoneSurrogates

/-! ## Encoding -/

/-- Why a text has no bytes: the first surrogate in it, where it is, and how many follow it. -/
structure EncodeFault where
  position : Nat
  code : Nat
  further : Nat
  deriving DecidableEq, Repr

def EncodeFault.message (f : EncodeFault) : String :=
  let subject :=
    if f.further = 0 then
      "character '\\u" ++ String.ofList (hexDigits 4 f.code) ++ "' in position " ++ toString f.position
    else "characters in position " ++ toString f.position ++ "-" ++ toString (f.position + f.further)
  "'utf-8' codec can't encode " ++ subject ++ ": surrogates not allowed"

section

variable [LoneSurrogates]

/-- What stops the encoding of characters, the first of which has the given position: a surrogate
that is not among those that have a byte. -/
def encodeFault? (hasByte : Nat → Bool) (position : Nat) : List Char → Option EncodeFault
  | [] => none
  | c :: rest =>
    match lone? c with
    | none => encodeFault? hasByte (position + 1) rest
    | some n =>
      if hasByte n then encodeFault? hasByte (position + 1) rest
      else some ⟨position, n, (rest.takeWhile fun c => (lone? c).isSome).length⟩

/-- Whether every surrogate among characters has a byte. -/
def Encodable (hasByte : Nat → Bool) (cs : List Char) : Prop :=
  ∀ c ∈ cs, ∀ n, lone? c = some n → hasByte n = true

theorem encodeFault?_eq_none_iff {hasByte : Nat → Bool} (position : Nat) {cs : List Char} :
    encodeFault? hasByte position cs = none ↔ Encodable hasByte cs := by
  unfold Encodable
  induction cs generalizing position with
  | nil => simp [encodeFault?]
  | cons c rest ih =>
    rw [encodeFault?, List.forall_mem_cons]
    cases hc : lone? c with
    | none => simp [ih]
    | some n =>
      cases hn : hasByte n with
      | false => simp [hn]
      | true => simp [hn, ih]

theorem encodable_of_toNat_lt {hasByte : Nat → Bool} {cs : List Char} (h : ∀ c ∈ cs, c.toNat < 0x10000) :
    Encodable hasByte cs := by
  intro c hc n hn
  rw [lone?_of_toNat_lt (h c hc)] at hn
  cases hn

/-- A text without surrogates, which is all that most texts are. -/
def IsUnicode (s : String) : Prop := Encodable (fun _ => false) s.toList

/-- The bytes of a text in UTF-8. -/
def writeUtf8 (s : String) : Except EncodeFault ByteArray :=
  match encodeFault? (fun _ => false) 0 s.toList with
  | none => .ok s.toUTF8
  | some f => .error f

theorem writeUtf8_of_isUnicode {s : String} (h : IsUnicode s) : writeUtf8 s = .ok s.toUTF8 := by
  rw [writeUtf8, (encodeFault?_eq_none_iff 0).mpr h]

theorem isUnicode_of_writeUtf8 {s : String} {bytes : ByteArray} (h : writeUtf8 s = .ok bytes) :
    IsUnicode s ∧ bytes = s.toUTF8 := by
  unfold writeUtf8 at h
  cases hs : encodeFault? (fun _ => false) 0 s.toList with
  | none =>
    rw [hs] at h
    cases h
    exact ⟨(encodeFault?_eq_none_iff 0).mp hs, rfl⟩
  | some f =>
    rw [hs] at h
    cases h

end

/-- In the names of files these surrogates stand for the bytes that are no text. -/
def standsForByte (n : Nat) : Bool := 0xdc80 ≤ n && n < 0xdd00

end Text

end Typings
