import Mathlib.Data.List.Forall2
import Typings.Proofs.Naming

/-!
# Property keys

A property key is a name, and a name is its own key. A text becomes a key character by character; all
that can be added is the underscore before a digit.
-/

namespace Typings.Naming

/-- What a character becomes in a key: itself if it is a word character, an underscore otherwise. -/
def StandsFor (c key : Char) : Prop := isWord c = true ∧ key = c ∨ isWord c = false ∧ key = '_'

/-! ## Character by character -/

theorem standsFor_wordsOnly (cs : List Char) : List.Forall₂ StandsFor cs (wordsOnly cs) := by
  induction cs with
  | nil => exact .nil
  | cons c rest ih =>
    rw [wordsOnly_cons]
    refine .cons ?_ ih
    cases hword : isWord c with
    | true => exact Or.inl ⟨hword, rfl⟩
    | false => exact Or.inr ⟨hword, rfl⟩

theorem wordsOnly_of_words {cs : List Char} (h : ∀ c ∈ cs, isWord c = true) : wordsOnly cs = cs := by
  induction cs with
  | nil => rfl
  | cons c rest ih =>
    rw [List.forall_mem_cons] at h
    rw [wordsOnly_cons, if_pos h.1, ih h.2]

/-! ## Names -/

theorem isWord_of_isNameStart {c : Char} (h : isNameStart c = true) : isWord c = true := by
  rw [isNameStart, Bool.or_eq_true] at h
  rcases h with h | h
  · simp [isWord, Char.isAlphanum, h]
  · simp [isWord, h]

theorem isWord_of_mem_identifier {s : String} (h : isIdentifier s = true) : ∀ c ∈ s.toList, isWord c = true := by
  obtain ⟨c, rest, hs, hc, hrest⟩ := (isIdentifier_iff s).mp h
  rw [hs, List.forall_mem_cons]
  exact ⟨isWord_of_isNameStart hc, hrest⟩

theorem opensWithDigit_of_isIdentifier {s : String} (h : isIdentifier s = true) :
    opensWithDigit s.toList = false := by
  obtain ⟨c, rest, hs, hc, -⟩ := (isIdentifier_iff s).mp h
  rw [hs, opensWithDigit, Bool.eq_false_iff]
  intro hdigit
  rw [isNameStart_of_isDigit hdigit] at hc
  cases hc

theorem ne_empty_of_isIdentifier {s : String} (h : isIdentifier s = true) : s ≠ "" := by
  rintro rfl
  cases h

theorem propertyKey_of_isIdentifier {s : String} (h : isIdentifier s = true) : propertyKey (some s) = s := by
  apply String.toList_inj.mp
  rw [toList_propertyKey (ne_empty_of_isIdentifier h), opensWithDigit_of_isIdentifier h,
    wordsOnly_of_words (isWord_of_mem_identifier h)]
  rfl

/-- Keys are the normal forms of identifiers: every key is a name, every name its own key, so that no
two names share one. A text has a key of its own length, but for the underscore before a digit. -/
theorem propertyKey_normalForm :
    (∀ identifier, isIdentifier (propertyKey identifier) = true) ∧
      (∀ s, propertyKey (some s) = s ↔ isIdentifier s = true) ∧
      (∀ identifier, propertyKey (some (propertyKey identifier)) = propertyKey identifier) ∧
      (∀ s, (∃ identifier, propertyKey identifier = s) ↔ isIdentifier s = true) ∧
      (∀ a b, isIdentifier a = true → isIdentifier b = true → propertyKey (some a) = propertyKey (some b) → a = b) ∧
      ∀ s, s ≠ "" → ∃ key, List.Forall₂ StandsFor s.toList key ∧
        (propertyKey (some s)).toList = if opensWithDigit s.toList then '_' :: key else key := by
  refine ⟨isIdentifier_propertyKey, fun s => ?_,
    fun identifier => propertyKey_of_isIdentifier (isIdentifier_propertyKey identifier), fun s => ?_,
    fun a b ha hb h => ?_, fun s hs => ⟨wordsOnly s.toList, standsFor_wordsOnly _, toList_propertyKey hs⟩⟩
  · exact ⟨fun h => h ▸ isIdentifier_propertyKey (some s), propertyKey_of_isIdentifier⟩
  · constructor
    · rintro ⟨identifier, rfl⟩
      exact isIdentifier_propertyKey identifier
    · exact fun h => ⟨some s, propertyKey_of_isIdentifier h⟩
  · rwa [propertyKey_of_isIdentifier ha, propertyKey_of_isIdentifier hb] at h

theorem propertyKey_normalForm_size :
    (isIdentifier "_size" = true ∧ propertyKey (some "_size") = "_size") ∧
      "2-up" ≠ "" ∧ ∃ key, List.Forall₂ StandsFor "2-up".toList key ∧
        (propertyKey (some "2-up")).toList = '_' :: key := by
  obtain ⟨-, hfixed, -, -, -, hshape⟩ := propertyKey_normalForm
  have hname : isIdentifier "_size" = true := by simp [isIdentifier, isNameStart, isWord]
  exact ⟨⟨hname, (hfixed "_size").mpr hname⟩, by simp, hshape "2-up" (by simp)⟩

end Typings.Naming
