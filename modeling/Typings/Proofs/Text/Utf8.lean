import Mathlib
import Typings.Text.Utf8

/-! # Bytes that are a text

Reading succeeds on the bytes of a text and on no others, and gives that text back.
-/

namespace Typings.Text

namespace Utf8

/-! ## One character -/

theorem toNat_ofNat {n : Nat} (h : n.isValidChar) : (Char.ofNat n).val.toNat = n :=
  (Char.toNat_ofNat n).trans (if_pos h)

theorem mayFollow_eq_true_iff {a b : UInt8} : mayFollow a b = true ↔
    (0x80 ≤ b.toNat ∧ b.toNat < 0xc0) ∧ (a.toNat = 0xe0 → 0xa0 ≤ b.toNat) ∧
      (a.toNat = 0xed → b.toNat < 0xa0) ∧ (a.toNat = 0xf0 → 0x90 ≤ b.toNat) ∧
      (a.toNat = 0xf4 → b.toNat < 0x90) := by
  simp [mayFollow, isContinuation, UInt8.le_iff_toNat_le, UInt8.lt_iff_toNat_lt, ← UInt8.toNat_inj, and_assoc,
    ← imp_iff_not_or]

theorem isContinuation_eq_true_iff {b : UInt8} :
    isContinuation b = true ↔ 0x80 ≤ b.toNat ∧ b.toNat < 0xc0 := by
  simp [isContinuation, UInt8.le_iff_toNat_le, UInt8.lt_iff_toNat_lt]

theorem utf8EncodeChar_one {a : UInt8} (ha : a.toNat < 0x80) :
    String.utf8EncodeChar (Char.ofNat a.toNat) = [a] := by
  rw [String.utf8EncodeChar, toNat_ofNat (.inl (by omega)), if_pos (by omega), UInt8.ofNat_toNat]

theorem utf8EncodeChar_two {a b : UInt8} (hl : 0xc2 ≤ a.toNat) (hr : a.toNat < 0xe0)
    (hb : mayFollow a b = true) :
    String.utf8EncodeChar (Char.ofNat (a.toNat % 32 * 64 + payload b)) = [a, b] := by
  obtain ⟨hb, -⟩ := mayFollow_eq_true_iff.mp hb
  unfold payload
  rw [String.utf8EncodeChar, toNat_ofNat (.inl (by omega)), if_neg (by omega), if_pos (by omega)]
  simp only [List.cons.injEq, and_true, ← UInt8.toNat_inj, UInt8.toNat_ofNat']
  omega

theorem utf8EncodeChar_three {a b c : UInt8} (hl : 0xe0 ≤ a.toNat) (hr : a.toNat < 0xf0)
    (hb : mayFollow a b = true) (hc : isContinuation c = true) :
    String.utf8EncodeChar (Char.ofNat ((a.toNat % 16 * 64 + payload b) * 64 + payload c)) = [a, b, c] := by
  obtain ⟨hb, he0, hed, -⟩ := mayFollow_eq_true_iff.mp hb
  have hc := isContinuation_eq_true_iff.mp hc
  unfold payload
  rw [String.utf8EncodeChar, toNat_ofNat (by simp only [Nat.isValidChar]; omega), if_neg (by omega),
    if_neg (by omega), if_pos (by omega)]
  simp only [List.cons.injEq, and_true, ← UInt8.toNat_inj, UInt8.toNat_ofNat']
  omega

theorem utf8EncodeChar_four {a b c d : UInt8} (hl : 0xf0 ≤ a.toNat) (hr : a.toNat < 0xf5)
    (hb : mayFollow a b = true) (hc : isContinuation c = true) (hd : isContinuation d = true) :
    String.utf8EncodeChar
      (Char.ofNat (((a.toNat % 8 * 64 + payload b) * 64 + payload c) * 64 + payload d)) = [a, b, c, d] := by
  obtain ⟨hb, -, -, hf0, hf4⟩ := mayFollow_eq_true_iff.mp hb
  have hc := isContinuation_eq_true_iff.mp hc
  have hd := isContinuation_eq_true_iff.mp hd
  unfold payload
  rw [String.utf8EncodeChar, toNat_ofNat (by simp only [Nat.isValidChar]; omega), if_neg (by omega),
    if_neg (by omega), if_neg (by omega)]
  simp only [List.cons.injEq, and_true, ← UInt8.toNat_inj, UInt8.toNat_ofNat']
  omega

/-! ## Many characters -/

section

variable {position : Nat} {rest : List UInt8} {cs : List Char} {c : Char}

theorem map_eq_ok_iff {α β ε : Type} {f : α → β} {m : Except ε α} {b : β} :
    m.map f = .ok b ↔ ∃ a, m = .ok a ∧ f a = b := by
  cases m <;> simp [Except.map]

theorem append_eq_flatMap {m : Except Utf8Fault (List Char)} {front : List UInt8}
    (henc : String.utf8EncodeChar c = front)
    (ih : ∀ {cs}, m = .ok cs → rest = cs.flatMap String.utf8EncodeChar)
    (h : m.map (c :: ·) = .ok cs) : front ++ rest = cs.flatMap String.utf8EncodeChar := by
  obtain ⟨cs, hcs, rfl⟩ := map_eq_ok_iff.mp h
  rw [List.flatMap_cons, henc, ← ih hcs]

theorem eq_of_decodeFrom {bytes : List UInt8} (h : decodeFrom position bytes = .ok cs) :
    bytes = cs.flatMap String.utf8EncodeChar := by
  fun_induction decodeFrom position bytes generalizing cs with
  | case1 => cases h; rfl
  | case2 _ a _ ha ih => exact append_eq_flatMap (utf8EncodeChar_one ha) ih h
  | case6 _ a ha hstart b _ hb h2 ih =>
    simp only [Bool.or_eq_true, decide_eq_true_eq, not_or, Bool.not_eq_true', Bool.not_eq_false,
      UInt8.not_lt] at hstart hb
    exact append_eq_flatMap (utf8EncodeChar_two hstart.1 h2 hb) ih h
  | case9 _ a ha hstart b hb h2 c _ hc h3 ih =>
    simp only [Bool.not_eq_true', Bool.not_eq_false, UInt8.not_lt] at hb h2 hc
    exact append_eq_flatMap (utf8EncodeChar_three h2 h3 hb hc) ih h
  | case12 _ a ha hstart b hb h2 c hc h3 d _ hd ih =>
    simp only [Bool.or_eq_true, decide_eq_true_eq, not_or, Bool.not_eq_true', Bool.not_eq_false, UInt8.not_le,
      UInt8.not_lt] at hstart hb h3 hc hd
    exact append_eq_flatMap (utf8EncodeChar_four h3 hstart.2 hb hc hd) ih h
  | _ => cases h

theorem decodeFrom_one {a : UInt8} (ha : a.toNat < 0x80) :
    decodeFrom position (a :: rest) = (decodeFrom (position + 1) rest).map (Char.ofNat a.toNat :: ·) := by
  rw [decodeFrom.eq_def]
  simp [UInt8.lt_iff_toNat_lt, ha]

theorem decodeFrom_two {a b : UInt8} (hl : 0xc2 ≤ a.toNat) (hr : a.toNat < 0xe0) (hb : mayFollow a b = true) :
    decodeFrom position (a :: b :: rest) =
      (decodeFrom (position + 2) rest).map (Char.ofNat (a.toNat % 32 * 64 + payload b) :: ·) := by
  rw [decodeFrom.eq_def]
  simp [UInt8.lt_iff_toNat_lt, UInt8.le_iff_toNat_le, hb, hr, show ¬ a.toNat < 128 by omega,
    show ¬ a.toNat < 194 by omega, show ¬ 245 ≤ a.toNat by omega]

theorem decodeFrom_three {a b c : UInt8} (hl : 0xe0 ≤ a.toNat) (hr : a.toNat < 0xf0)
    (hb : mayFollow a b = true) (hc : isContinuation c = true) :
    decodeFrom position (a :: b :: c :: rest) = (decodeFrom (position + 3) rest).map
      (Char.ofNat ((a.toNat % 16 * 64 + payload b) * 64 + payload c) :: ·) := by
  rw [decodeFrom.eq_def]
  simp [UInt8.lt_iff_toNat_lt, UInt8.le_iff_toNat_le, hb, hc, hr, show ¬ a.toNat < 128 by omega,
    show ¬ a.toNat < 194 by omega, show ¬ 245 ≤ a.toNat by omega, show ¬ a.toNat < 224 by omega]

theorem decodeFrom_four {a b c d : UInt8} (hl : 0xf0 ≤ a.toNat) (hr : a.toNat < 0xf5)
    (hb : mayFollow a b = true) (hc : isContinuation c = true) (hd : isContinuation d = true) :
    decodeFrom position (a :: b :: c :: d :: rest) = (decodeFrom (position + 4) rest).map
      (Char.ofNat (((a.toNat % 8 * 64 + payload b) * 64 + payload c) * 64 + payload d) :: ·) := by
  rw [decodeFrom.eq_def]
  simp [UInt8.lt_iff_toNat_lt, UInt8.le_iff_toNat_le, hb, hc, hd, show ¬ a.toNat < 128 by omega,
    show ¬ a.toNat < 194 by omega, show ¬ 245 ≤ a.toNat by omega, show ¬ a.toNat < 224 by omega,
    show ¬ a.toNat < 240 by omega]

theorem decodeFrom_utf8EncodeChar_append :
    decodeFrom position (String.utf8EncodeChar c ++ rest) =
      (decodeFrom (position + (String.utf8EncodeChar c).length) rest).map (c :: ·) := by
  have hvalid : c.val.toNat < 0xd800 ∨ 0xdfff < c.val.toNat ∧ c.val.toNat < 0x110000 := c.valid
  have hc : Char.ofNat c.val.toNat = c := Char.ofNat_toNat c
  have hbyte (n : Nat) : (UInt8.ofNat n).toNat = n % 256 := UInt8.toNat_ofNat'
  rw [String.utf8EncodeChar]
  generalize c.val.toNat = v at *
  subst hc
  split_ifs with h1 h2 h3
  · rw [List.singleton_append, decodeFrom_one (by rw [hbyte]; omega), hbyte, Nat.mod_eq_of_lt (by omega)]
    rfl
  · simp only [List.cons_append, List.nil_append]
    rw [decodeFrom_two (by rw [hbyte]; omega) (by rw [hbyte]; omega)
      (mayFollow_eq_true_iff.mpr (by simp only [hbyte]; omega))]
    have : (v / 64 % 32 + 192) % 256 % 32 * 64 + (v % 64 + 128) % 256 % 64 = v := by omega
    simp only [payload, hbyte, this, List.length_cons, List.length_nil]
  · simp only [List.cons_append, List.nil_append]
    rw [decodeFrom_three (by rw [hbyte]; omega) (by rw [hbyte]; omega)
      (mayFollow_eq_true_iff.mpr (by simp only [hbyte]; omega))
      (isContinuation_eq_true_iff.mpr (by simp only [hbyte]; omega))]
    have : ((v / 4096 % 16 + 224) % 256 % 16 * 64 + (v / 64 % 64 + 128) % 256 % 64) * 64 +
        (v % 64 + 128) % 256 % 64 = v := by omega
    simp only [payload, hbyte, this, List.length_cons, List.length_nil]
  · simp only [List.cons_append, List.nil_append]
    rw [decodeFrom_four (by rw [hbyte]; omega) (by rw [hbyte]; omega)
      (mayFollow_eq_true_iff.mpr (by simp only [hbyte]; omega))
      (isContinuation_eq_true_iff.mpr (by simp only [hbyte]; omega))
      (isContinuation_eq_true_iff.mpr (by simp only [hbyte]; omega))]
    have : (((v / 262144 % 8 + 240) % 256 % 8 * 64 + (v / 4096 % 64 + 128) % 256 % 64) * 64 +
        (v / 64 % 64 + 128) % 256 % 64) * 64 + (v % 64 + 128) % 256 % 64 = v := by omega
    simp only [payload, hbyte, this, List.length_cons, List.length_nil]

theorem decodeFrom_flatMap_utf8EncodeChar (cs : List Char) (position : Nat) :
    decodeFrom position (cs.flatMap String.utf8EncodeChar) = .ok cs := by
  induction cs generalizing position with
  | nil => rfl
  | cons c cs ih => rw [List.flatMap_cons, decodeFrom_utf8EncodeChar_append, ih]; rfl

theorem decodeFrom_eq_ok_iff {bytes : List UInt8} :
    decodeFrom position bytes = .ok cs ↔ bytes = cs.flatMap String.utf8EncodeChar :=
  ⟨eq_of_decodeFrom, fun h => h ▸ decodeFrom_flatMap_utf8EncodeChar cs position⟩

end

end Utf8

/-! ## Texts -/

theorem toList_loop (bytes : ByteArray) (i : Nat) (done : List UInt8) :
    ByteArray.toList.loop bytes i done = done.reverse ++ bytes.data.toList.drop i := by
  induction i, done using ByteArray.toList.loop.induct bytes with
  | case1 i done hi ih =>
    have hi' : i < bytes.data.toList.length := by rwa [Array.length_toList]
    have hget : bytes.get! i = bytes.data.toList[i] := by
      rw [ByteArray.get!, Array.getElem_toList]
      exact getElem!_pos bytes.data i hi
    rw [ByteArray.toList.loop.eq_def, if_pos hi, ih, List.drop_eq_getElem_cons hi', hget, List.reverse_cons,
      List.append_assoc]
    rfl
  | case2 i done hi =>
    have hi' : bytes.data.toList.length ≤ i := by
      rw [Array.length_toList]
      exact Nat.le_of_not_lt hi
    rw [ByteArray.toList.loop.eq_def, if_neg hi, List.drop_eq_nil_of_le hi', List.append_nil]

theorem toList_eq (bytes : ByteArray) : bytes.toList = bytes.data.toList := toList_loop bytes 0 []

theorem toList_toUTF8 (s : String) : s.toUTF8.toList = s.toList.flatMap String.utf8EncodeChar := by
  rw [toList_eq, String.toUTF8_eq_toByteArray, ← String.utf8Encode_toList, List.utf8Encode,
    List.toList_data_toByteArray]

theorem readUtf8_eq_ok_iff {bytes : ByteArray} {s : String} : readUtf8 bytes = .ok s ↔ bytes = s.toUTF8 := by
  unfold readUtf8
  rw [Utf8.map_eq_ok_iff]
  simp only [Utf8.decodeFrom_eq_ok_iff, toList_eq]
  constructor
  · rintro ⟨cs, hcs, rfl⟩
    rw [String.toUTF8_eq_toByteArray, String.toByteArray_ofList, List.utf8Encode, ← hcs]
    apply ByteArray.ext
    simp
  · rintro rfl
    refine ⟨s.toList, ?_, String.ofList_toList⟩
    rw [String.toUTF8_eq_toByteArray, ← String.utf8Encode_toList, List.utf8Encode, List.toList_data_toByteArray]

theorem readUtf8_eq_error_iff {bytes : ByteArray} :
    (∃ f, readUtf8 bytes = .error f) ↔ ∀ s : String, bytes ≠ s.toUTF8 := by
  cases h : readUtf8 bytes with
  | ok s => simpa using ⟨s, readUtf8_eq_ok_iff.mp h⟩
  | error f =>
    refine ⟨fun _ s hs => ?_, fun _ => ⟨f, rfl⟩⟩
    rw [readUtf8_eq_ok_iff.mpr hs] at h
    cases h

end Typings.Text
