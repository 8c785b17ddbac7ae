import Mathlib.Data.List.GetD
import Mathlib.Data.List.Nodup
import Typings.Text.Surrogates

/-!
# Characters for surrogates

Texts can always be read so that none of them holds a surrogate: unless they use nearly all of the
characters there are, enough are left to stand for surrogates.
-/

namespace Typings.LoneSurrogates

/-! ## Characters in order -/

/-- Characters in the order of their code points, from the end of the first plane on. -/
def supplementary (count : Nat) : List Char := (List.range count).map fun k => Char.ofNat (0x10000 + k)

variable {count : Nat}

theorem toNat_supplementary (hcount : count ≤ 0x100000) {k : Nat} (hk : k ∈ List.range count) :
    (Char.ofNat (0x10000 + k)).toNat = 0x10000 + k := by
  have hlt := List.mem_range.mp hk
  exact toNat_ofNat_of_isValidChar (Or.inr (by omega))

theorem le_toNat_of_mem_supplementary (hcount : count ≤ 0x100000) {c : Char} (h : c ∈ supplementary count) :
    0x10000 ≤ c.toNat := by
  obtain ⟨k, hk, rfl⟩ := List.mem_map.mp h
  rw [toNat_supplementary hcount hk]
  exact Nat.le_add_right _ _

theorem length_supplementary : (supplementary count).length = count := by
  rw [supplementary, List.length_map, List.length_range]

theorem nodup_supplementary (hcount : count ≤ 0x100000) : (supplementary count).Nodup := by
  refine List.Nodup.map_on (fun k hk l hl heq => ?_) List.nodup_range
  have hnumber := congrArg Char.toNat heq
  rw [toNat_supplementary hcount hk, toNat_supplementary hcount hl] at hnumber
  exact Nat.add_left_cancel hnumber

/-! ## Characters that are left -/

/-- The surrogates, in order, by the first characters of a list. -/
@[reducible] def ofChars (free : List Char) (hnodup : free.Nodup) (hroom : 0x800 ≤ free.length)
    (hplane : ∀ c ∈ free, 0x10000 ≤ c.toNat) : LoneSurrogates where
  standIn n := free.getD (n - 0xd800) '\x00'
  lone? c := if free.idxOf c < 0x800 then some (0xd800 + free.idxOf c) else none
  lone?_eq_some_iff c n := by
    simp only [isSurrogate, Bool.and_eq_true, decide_eq_true_eq]
    constructor
    · intro h
      split at h
      · have hn := Option.some.inj h
        have hindex : n - 0xd800 = free.idxOf c := by omega
        refine ⟨by omega, ?_⟩
        rw [hindex, List.getD_eq_getElem _ _ (by omega), List.getElem_idxOf]
      · cases h
    · rintro ⟨hn, rfl⟩
      rw [List.getD_eq_getElem _ _ (by omega), hnodup.idxOf_getElem, if_pos (by omega)]
      exact congrArg some (by omega)
  le_toNat_standIn n h := by
    simp only [isSurrogate, Bool.and_eq_true, decide_eq_true_eq] at h
    rw [List.getD_eq_getElem _ _ (by omega)]
    exact hplane _ (List.getElem_mem _)

theorem lone?_ofChars_of_not_mem {free : List Char} {hnodup : free.Nodup} {hroom : 0x800 ≤ free.length}
    {hplane : ∀ c ∈ free, 0x10000 ≤ c.toNat} {c : Char} (h : c ∉ free) :
    (ofChars free hnodup hroom hplane).lone? c = none := by
  have hindex : free.idxOf c = free.length := List.idxOf_eq_length h
  exact if_neg (by omega)

/-- The characters behind the first plane that a text leaves. -/
def unused (used : List Char) : List Char := (supplementary 0x100000).filter fun c => c ∉ used

theorem mem_unused_iff {used : List Char} {c : Char} : c ∈ unused used ↔ c ∈ supplementary 0x100000 ∧ c ∉ used := by
  rw [unused, List.mem_filter, decide_eq_true_iff]

theorem length_unused {used : List Char} (h : used.length ≤ 0xff800) : 0x800 ≤ (unused used).length := by
  have hused : ((supplementary 0x100000).filter fun c => c ∈ used).length ≤ used.length :=
    ((nodup_supplementary (Nat.le_refl _)).filter _).length_le_of_subset fun c hc => by
      simpa using (List.mem_filter.mp hc).2
  have hsplit : (supplementary 0x100000).length =
      ((supplementary 0x100000).filter fun c => c ∈ used).length + (unused used).length := by
    simpa [unused] using List.length_eq_length_filter_add (l := supplementary 0x100000) fun c => decide (c ∈ used)
  rw [length_supplementary] at hsplit
  omega

theorem exists_lone?_eq_none (used : List Char) (h : used.length ≤ 0xff800) :
    ∃ reading : LoneSurrogates, ∀ c ∈ used, reading.lone? c = none := by
  have hnodup : (unused used).Nodup := (nodup_supplementary (Nat.le_refl _)).filter _
  have hplane : ∀ c ∈ unused used, 0x10000 ≤ c.toNat := fun c hc =>
    le_toNat_of_mem_supplementary (Nat.le_refl _) (mem_unused_iff.mp hc).1
  refine ⟨ofChars (unused used) hnodup (length_unused h) hplane, fun c hc => ?_⟩
  exact lone?_ofChars_of_not_mem fun hfree => (mem_unused_iff.mp hfree).2 hc

/-- Texts without surrogates can be read as such, whichever characters they hold. -/
theorem exists_isUnicode (texts : List String) (h : (texts.flatMap String.toList).length ≤ 0xff800) :
    ∃ _ : LoneSurrogates, ∀ s ∈ texts, Text.IsUnicode s := by
  obtain ⟨reading, hnone⟩ := exists_lone?_eq_none _ h
  refine ⟨reading, fun s hs c hc n hn => ?_⟩
  rw [hnone c (List.mem_flatMap.mpr ⟨s, hs, hc⟩)] at hn
  cases hn

end Typings.LoneSurrogates
