import Typings.Proofs.Naming

/-!
# Type names

A type name is made of word characters and begins with no lower-case letter; texts of this form are
their own type names. Separators only say where a text is cut, and a text without separators loses
nothing but the case of an initial letter.
-/

namespace Typings.Naming

/-- Word characters only, and no lower-case letter at the start. -/
structure IsTypeName (s : String) : Prop where
  words : ∀ c ∈ s.toList, isWord c = true
  initial : ∀ c, s.toList.head? = some c → c.isLower = false

/-! ## Letters -/

/-- A lower-case letter and the same letter in upper case. -/
def CasePair (lower upper : Char) : Prop := lower.isLower = true ∧ upper.toNat + 32 = lower.toNat

theorem isLower_toUpper (c : Char) : c.toUpper.isLower = false := by
  cases hlower : c.isLower with
  | false => rwa [toUpper_of_isLower_eq_false hlower]
  | true =>
    have hcode := toNat_toUpper hlower
    rw [isLower_iff] at hlower
    rw [Bool.eq_false_iff, ne_eq, isLower_iff]
    omega

theorem toUpper_of_casePair {c d : Char} (h : CasePair c d) : c.toUpper = d.toUpper := by
  obtain ⟨hlower, hcode⟩ := h
  have hd : d.isLower = false := by
    rw [isLower_iff] at hlower
    rw [Bool.eq_false_iff, ne_eq, isLower_iff]
    omega
  have hupper := toNat_toUpper hlower
  rw [toUpper_of_isLower_eq_false hd]
  exact Char.toNat_inj.mp (by omega)

theorem toUpper_eq_iff (c d : Char) : c.toUpper = d.toUpper ↔ c = d ∨ CasePair c d ∨ CasePair d c := by
  constructor
  · intro h
    have hcode := congrArg Char.toNat h
    cases hc : c.isLower with
    | false =>
      rw [toUpper_of_isLower_eq_false hc] at h hcode
      cases hd : d.isLower with
      | false => exact Or.inl (h.trans (toUpper_of_isLower_eq_false hd))
      | true =>
        have hupper := toNat_toUpper hd
        exact Or.inr (Or.inr ⟨hd, by omega⟩)
    | true =>
      have hupper := toNat_toUpper hc
      cases hd : d.isLower with
      | false =>
        rw [toUpper_of_isLower_eq_false hd] at hcode
        exact Or.inr (Or.inl ⟨hc, by omega⟩)
      | true =>
        have hupper' := toNat_toUpper hd
        exact Or.inl (Char.toNat_inj.mp (by omega))
  · rintro (rfl | h | h)
    · rfl
    · exact toUpper_of_casePair h
    · exact (toUpper_of_casePair h).symm

/-! ## Words and separators -/

theorem capitalize_of_words {cs : List Char} (h : ∀ c ∈ cs, isWord c = true) : capitalize false cs = cs := by
  induction cs with
  | nil => rfl
  | cons c rest ih =>
    rw [List.forall_mem_cons] at h
    rw [capitalize, if_pos h.1, ih h.2]
    rfl

theorem capitalize_cons_of_words {c : Char} {rest : List Char} (h : ∀ d ∈ c :: rest, isWord d = true) :
    capitalize true (c :: rest) = c.toUpper :: rest := by
  rw [List.forall_mem_cons] at h
  rw [capitalize, if_pos h.1, capitalize_of_words h.2]
  rfl

theorem capitalize_separator {c : Char} (hc : isWord c = false) (atStart : Bool) (rest : List Char) :
    capitalize atStart (c :: rest) = capitalize true rest := by
  rw [capitalize, hc]
  rfl

theorem capitalize_separators {s : List Char} (hs : ∀ c ∈ s, isWord c = false) (t : List Char) :
    capitalize true (s ++ t) = capitalize true t := by
  induction s with
  | nil => rfl
  | cons c rest ih =>
    rw [List.forall_mem_cons] at hs
    rw [List.cons_append, capitalize_separator hs.1, ih hs.2]

theorem capitalize_append {s : List Char} (hs : ∀ c ∈ s, isWord c = false) (hne : s ≠ []) (atStart : Bool)
    (a b : List Char) : capitalize atStart (a ++ (s ++ b)) = capitalize atStart a ++ capitalize true b := by
  induction a generalizing atStart with
  | nil =>
    cases s with
    | nil => exact absurd rfl hne
    | cons c rest =>
      rw [List.forall_mem_cons] at hs
      exact (capitalize_separator hs.1 atStart (rest ++ b)).trans (capitalize_separators hs.2 b)
  | cons c rest ih =>
    rw [List.cons_append, capitalize, capitalize, ih, ih]
    split <;> rfl

theorem typeName_append {s : String} (hs : ∀ c ∈ s.toList, isWord c = false) (hne : s ≠ "") (a b : String) :
    typeName (a ++ s ++ b) = typeName a ++ typeName b := by
  have hnil : s.toList ≠ [] := by simpa using hne
  unfold typeName
  rw [String.toList_append, String.toList_append, List.append_assoc, capitalize_append hs hnil,
    String.ofList_append]

/-! ## Texts that are type names -/

theorem isLower_of_head?_capitalize {cs : List Char} {c : Char} (h : (capitalize true cs).head? = some c) :
    c.isLower = false := by
  induction cs with
  | nil => cases h
  | cons d rest ih =>
    rw [capitalize] at h
    split at h
    · cases h
      exact isLower_toUpper d
    · exact ih h

theorem isTypeName_typeName (s : String) : IsTypeName (typeName s) where
  words := isWord_of_mem_typeName s
  initial c hc := by
    rw [typeName, String.toList_ofList] at hc
    exact isLower_of_head?_capitalize hc

theorem typeName_of_isTypeName {s : String} (h : IsTypeName s) : typeName s = s := by
  obtain ⟨hwords, hinitial⟩ := h
  have hcapitalize : capitalize true s.toList = s.toList := by
    cases hs : s.toList with
    | nil => rfl
    | cons c rest =>
      rw [hs] at hwords hinitial
      rw [capitalize_cons_of_words hwords, toUpper_of_isLower_eq_false (hinitial c rfl)]
  rw [typeName, hcapitalize, String.ofList_toList]

/-! ## Equal type names -/

/-- The same characters, but for the case of an initial letter. -/
inductive SameButInitialCase : List Char → List Char → Prop
  | same (s : List Char) : SameButInitialCase s s
  | lowered {c d : Char} (h : CasePair c d) (rest : List Char) : SameButInitialCase (c :: rest) (d :: rest)
  | raised {c d : Char} (h : CasePair c d) (rest : List Char) : SameButInitialCase (d :: rest) (c :: rest)

theorem capitalize_eq_iff {s t : List Char} (hs : ∀ c ∈ s, isWord c = true) (ht : ∀ c ∈ t, isWord c = true) :
    capitalize true s = capitalize true t ↔ SameButInitialCase s t := by
  cases s with
  | nil =>
    cases t with
    | nil => exact iff_of_true rfl (.same [])
    | cons d rest =>
      rw [capitalize_cons_of_words ht]
      exact iff_of_false nofun nofun
  | cons c rest =>
    cases t with
    | nil =>
      rw [capitalize_cons_of_words hs]
      exact iff_of_false nofun nofun
    | cons d rest' =>
      rw [capitalize_cons_of_words hs, capitalize_cons_of_words ht, List.cons.injEq, toUpper_eq_iff]
      constructor
      · rintro ⟨rfl | h | h, rfl⟩
        · exact .same _
        · exact .lowered h rest
        · exact .raised h rest
      · rintro (_ | h | h)
        · exact ⟨Or.inl rfl, rfl⟩
        · exact ⟨Or.inr (Or.inl h), rfl⟩
        · exact ⟨Or.inr (Or.inr h), rfl⟩

theorem typeName_eq_iff {a b : String} (ha : ∀ c ∈ a.toList, isWord c = true)
    (hb : ∀ c ∈ b.toList, isWord c = true) :
    typeName a = typeName b ↔ SameButInitialCase a.toList b.toList := by
  rw [typeName, typeName, String.ofList_inj, capitalize_eq_iff ha hb]

/-- Type names are the normal forms of identifiers: made of word characters, put together from the
type names of what separators cut apart, and made again of what is one already. -/
theorem typeName_normalForm :
    (∀ s, ∀ c ∈ (typeName s).toList, isWord c = true) ∧
      (∀ a b s, s ≠ "" → (∀ c ∈ s.toList, isWord c = false) →
        typeName (a ++ s ++ b) = typeName a ++ typeName b) ∧
      (∀ s, typeName s = s ↔ IsTypeName s) ∧
      (∀ s, (∃ t, typeName t = s) ↔ IsTypeName s) ∧
      (∀ s, typeName (typeName s) = typeName s) ∧
      ∀ a b, (∀ c ∈ a.toList, isWord c = true) → (∀ c ∈ b.toList, isWord c = true) →
        (typeName a = typeName b ↔ SameButInitialCase a.toList b.toList) := by
  refine ⟨isWord_of_mem_typeName, fun a b s hne hs => typeName_append hs hne a b, fun s => ?_, fun s => ?_,
    fun s => typeName_of_isTypeName (isTypeName_typeName s), fun a b ha hb => typeName_eq_iff ha hb⟩
  · exact ⟨fun h => h ▸ isTypeName_typeName s, typeName_of_isTypeName⟩
  · constructor
    · rintro ⟨t, rfl⟩
      exact isTypeName_typeName t
    · exact fun h => ⟨s, typeName_of_isTypeName h⟩

theorem typeName_normalForm_page :
    ("- " ≠ "" ∧ (∀ c ∈ "- ".toList, isWord c = false) ∧
      typeName ("page" ++ "- " ++ "link_to") = typeName "page" ++ typeName "link_to") ∧
      (∀ c ∈ "page".toList, isWord c = true) ∧ (∀ c ∈ "Page".toList, isWord c = true) ∧
      typeName "page" = typeName "Page" ∧ typeName "Page" = "Page" := by
  obtain ⟨-, happend, hfixed, -, -, hsame⟩ := typeName_normalForm
  have hseparators : ∀ c ∈ "- ".toList, isWord c = false := by simp [isWord]
  have hlower : ∀ c ∈ "page".toList, isWord c = true := by simp [isWord]
  have hupper : ∀ c ∈ "Page".toList, isWord c = true := by simp [isWord]
  have hinitial : ∀ c, "Page".toList.head? = some c → c.isLower = false := by
    rintro _ ⟨⟩
    decide
  refine ⟨⟨by simp, hseparators, happend "page" "link_to" "- " (by simp) hseparators⟩, hlower, hupper, ?_,
    (hfixed "Page").mpr ⟨hupper, hinitial⟩⟩
  exact (hsame "page" "Page" hlower hupper).mpr (.lowered ⟨by decide, by decide⟩ _)

end Typings.Naming
