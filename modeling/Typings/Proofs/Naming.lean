import Typings.Naming

/-!
# Names are identifiers

What the naming functions make out of arbitrary text may stand unquoted in a declaration. Different
texts may be given the same key.
-/

namespace Typings.Naming

/-- Whether a text is a name: word characters only, and the first of them may start a name. -/
def isIdentifier (s : String) : Bool :=
  match s.toList with
  | [] => false
  | c :: rest => isNameStart c && rest.all isWord

theorem isIdentifier_iff (s : String) :
    isIdentifier s = true ↔
      ∃ c rest, s.toList = c :: rest ∧ isNameStart c = true ∧ ∀ d ∈ rest, isWord d = true := by
  unfold isIdentifier
  cases s.toList with
  | nil => simp
  | cons c rest =>
    simp only [Bool.and_eq_true, List.all_eq_true, List.cons.injEq]
    constructor
    · intro h
      exact ⟨c, rest, ⟨rfl, rfl⟩, h⟩
    · rintro ⟨c, rest, ⟨rfl, rfl⟩, h⟩
      exact h

theorem isIdentifier_append {s t : String} (hs : isIdentifier s = true)
    (ht : ∀ c ∈ t.toList, isWord c = true) : isIdentifier (s ++ t) = true := by
  obtain ⟨c, rest, hsc, hc, hrest⟩ := (isIdentifier_iff s).mp hs
  refine (isIdentifier_iff _).mpr ⟨c, rest ++ t.toList, by simp [hsc], hc, ?_⟩
  intro d hd
  rcases List.mem_append.mp hd with hd | hd
  · exact hrest d hd
  · exact ht d hd

/-! ## Type names -/

theorem isLower_iff_val (c : Char) : c.isLower = true ↔ 'a'.val ≤ c.val ∧ c.val ≤ 'z'.val := by
  delta Char.isLower
  simp

theorem isLower_iff (c : Char) : c.isLower = true ↔ 97 ≤ c.toNat ∧ c.toNat ≤ 122 := by
  delta Char.isLower
  simp [UInt32.le_iff_toNat_le, ← Char.toNat_val]

theorem isUpper_iff (c : Char) : c.isUpper = true ↔ 65 ≤ c.toNat ∧ c.toNat ≤ 90 := by
  delta Char.isUpper
  simp [UInt32.le_iff_toNat_le, ← Char.toNat_val]

theorem isAlpha_eq (c : Char) : c.isAlpha = (c.isUpper || c.isLower) := rfl

theorem toNat_toUpper {c : Char} (h : c.isLower = true) : c.toUpper.toNat + 32 = c.toNat := by
  have hv : c.toUpper.toNat = (c.val + ('A'.val - 'a'.val)).toNat := by
    delta Char.toUpper
    rw [dif_pos ((isLower_iff_val c).mp h)]
    rfl
  have hd : ('A'.val - 'a'.val).toNat = 2 ^ 32 - 32 := rfl
  have hc : c.val.toNat = c.toNat := rfl
  rw [isLower_iff] at h
  rw [hv, UInt32.toNat_add, hd, hc]
  omega

theorem toUpper_of_isLower_eq_false {c : Char} (h : c.isLower = false) : c.toUpper = c := by
  delta Char.toUpper
  rw [dif_neg fun hlower => by simp [(isLower_iff_val c).mpr hlower] at h]

theorem isUpper_toUpper {c : Char} (h : c.isLower = true) : c.toUpper.isUpper = true := by
  have hcode := toNat_toUpper h
  rw [isLower_iff] at h
  rw [isUpper_iff]
  omega

theorem isWord_toUpper {c : Char} (h : isWord c = true) : isWord c.toUpper = true := by
  cases hlower : c.isLower with
  | true => simp [isWord, Char.isAlphanum, isAlpha_eq, isUpper_toUpper hlower]
  | false => rwa [toUpper_of_isLower_eq_false hlower]

theorem isWord_of_mem_capitalize {atStart : Bool} {cs : List Char} :
    ∀ d ∈ capitalize atStart cs, isWord d = true := by
  induction cs generalizing atStart with
  | nil => simp
  | cons c rest ih =>
    rw [capitalize]
    split
    · intro d hd
      rcases List.mem_cons.mp hd with rfl | hd
      · split
        · exact isWord_toUpper ‹_›
        · assumption
      · exact ih d hd
    · exact ih

theorem isWord_of_mem_typeName (identifier : String) :
    ∀ c ∈ (typeName identifier).toList, isWord c = true := by
  rw [typeName, String.toList_ofList]
  exact isWord_of_mem_capitalize

/-! ## Property keys -/

theorem isWord_of_mem_wordsOnly (cs : List Char) : ∀ c ∈ wordsOnly cs, isWord c = true := by
  intro c hc
  obtain ⟨d, -, rfl⟩ := List.mem_map.mp hc
  split
  · assumption
  · rfl

theorem isIdentifier_mendStart {cs : List Char} (h : ∀ c ∈ cs, isWord c = true) :
    isIdentifier (String.ofList (mendStart cs)) = true := by
  rw [isIdentifier_iff, String.toList_ofList]
  cases cs with
  | nil => exact ⟨'_', [], rfl, rfl, by simp⟩
  | cons c rest =>
    rw [mendStart]
    split
    · exact ⟨c, rest, rfl, ‹_›, fun d hd => h d (List.mem_cons_of_mem _ hd)⟩
    · exact ⟨'_', c :: rest, rfl, rfl, h⟩

theorem isIdentifier_propertyKey (identifier : Option String) :
    isIdentifier (propertyKey identifier) = true :=
  isIdentifier_mendStart (isWord_of_mem_wordsOnly _)

/-! ## Equal property keys -/

theorem isNameStart_of_isDigit {c : Char} (h : c.isDigit = true) : isNameStart c = false := by
  have hcode : 48 ≤ c.toNat ∧ c.toNat ≤ 57 := by
    delta Char.isDigit at h
    simpa [UInt32.le_iff_toNat_le, ← Char.toNat_val] using h
  have hupper : ¬ c.isUpper = true := by
    rw [isUpper_iff]
    omega
  have hlower : ¬ c.isLower = true := by
    rw [isLower_iff]
    omega
  have hbar : c ≠ '_' := by
    rintro rfl
    exact absurd h (by decide)
  simp [isNameStart, isAlpha_eq, hupper, hlower, hbar]

theorem isWord_of_isDigit {c : Char} (h : c.isDigit = true) : isWord c = true := by
  simp [isWord, Char.isAlphanum, h]

theorem wordsOnly_cons (c : Char) (cs : List Char) :
    wordsOnly (c :: cs) = (if isWord c then c else '_') :: wordsOnly cs := rfl

theorem isDigit_kept (c : Char) : (if isWord c then c else '_').isDigit = c.isDigit := by
  split
  · rfl
  · rename_i hword
    rw [Bool.eq_false_iff.mpr fun h => hword (isWord_of_isDigit h)]
    rfl

theorem isNameStart_kept (c : Char) : isNameStart (if isWord c then c else '_') = !c.isDigit := by
  cases hd : c.isDigit with
  | true => simp [isWord_of_isDigit hd, isNameStart_of_isDigit hd]
  | false =>
    split
    · rename_i hword
      simpa [isWord, isNameStart, Char.isAlphanum, hd] using hword
    · rfl

/-- The text begins with a digit, so that its key begins with an underscore. -/
def opensWithDigit : List Char → Bool
  | [] => false
  | c :: _ => c.isDigit

theorem opensWithDigit_wordsOnly (cs : List Char) :
    opensWithDigit (wordsOnly cs) = opensWithDigit cs := by
  cases cs with
  | nil => rfl
  | cons c rest => exact isDigit_kept c

theorem mendStart_wordsOnly {cs : List Char} (h : cs ≠ []) :
    mendStart (wordsOnly cs) = if opensWithDigit cs then '_' :: wordsOnly cs else wordsOnly cs := by
  cases cs with
  | nil => contradiction
  | cons c rest =>
    rw [wordsOnly_cons, mendStart, isNameStart_kept, opensWithDigit]
    cases c.isDigit <;> rfl

theorem toList_propertyKey {s : String} (h : s ≠ "") :
    (propertyKey (some s)).toList =
      if opensWithDigit s.toList then '_' :: wordsOnly s.toList else wordsOnly s.toList := by
  have hnil : s.toList ≠ [] := by simpa using h
  rw [propertyKey, String.toList_ofList]
  simp only [h, if_false]
  exact mendStart_wordsOnly hnil

/-- Once every character that is no word character is an underscore, the two are equal, or the one
begins with a digit and the other is that with an underscore before it. -/
def SameKey (a b : String) : Prop :=
  wordsOnly a.toList = wordsOnly b.toList ∨
    (opensWithDigit a.toList = true ∧ wordsOnly b.toList = '_' :: wordsOnly a.toList) ∨
    (opensWithDigit b.toList = true ∧ wordsOnly a.toList = '_' :: wordsOnly b.toList)

theorem propertyKey_eq_iff {a b : String} (ha : a ≠ "") (hb : b ≠ "") :
    propertyKey (some a) = propertyKey (some b) ↔ SameKey a b := by
  -- A text that begins with a digit is neither equal to one that does not nor an underscore longer.
  have hdigit {s t : List Char} (h : wordsOnly s = wordsOnly t) :
      opensWithDigit s = opensWithDigit t := by
    rw [← opensWithDigit_wordsOnly s, h, opensWithDigit_wordsOnly]
  have hbar {s t : List Char} (h : wordsOnly s = '_' :: t) : opensWithDigit s = false := by
    rw [← opensWithDigit_wordsOnly s, h]
    rfl
  rw [← String.toList_inj, toList_propertyKey ha, toList_propertyKey hb, SameKey]
  constructor
  · intro h
    split at h <;> split at h
    · exact Or.inl (List.cons.inj h).2
    · exact Or.inr (Or.inl ⟨‹_›, h.symm⟩)
    · exact Or.inr (Or.inr ⟨‹_›, h⟩)
    · exact Or.inl h
  · rintro (h | ⟨hd, h⟩ | ⟨hd, h⟩)
    · rw [hdigit h, h]
    · rw [hd, hbar h, h]
      rfl
    · rw [hd, hbar h, h]
      rfl

end Typings.Naming
