import Typings.Decimal.Shortest
import Typings.Proofs.Script.Spelling

/-!
# Numerals

The digits of a number are one token, and so is the shortest text of a double, its sign aside.
-/

namespace Typings.Script

def Numeral (p : NumberPart) (cs : List Char) : Prop :=
  ∃ c rest, cs = c :: rest ∧ c.isDigit = true ∧ NumberPart.whole.after rest = some p ∧
    p.isComplete = true

theorem Numeral.ends {p : NumberPart} {cs : List Char} (h : Numeral p cs) :
    Ends cs [Token.number (String.ofList cs)] := by
  obtain ⟨c, rest, rfl, hc, hrest, hp⟩ := h
  exact ends_number hc hrest hp

/-! ## Runs of digits -/

theorem NumberPart.after_digits {p : NumberPart} (hp : p.isComplete = true) {ds : List Char}
    (h : ∀ d ∈ ds, d.isDigit = true) : p.after ds = some p := by
  induction ds with
  | nil => rfl
  | cons d rest ih =>
    have hnext : p.next d = some p := by
      have hd := h d List.mem_cons_self
      cases p <;> simp_all [NumberPart.next, NumberPart.isComplete]
    rw [NumberPart.after, hnext]
    exact ih fun e he => h e (List.mem_cons_of_mem _ he)

theorem NumberPart.after_exponent {p : NumberPart} (hp : p = .whole ∨ p = .fraction) {sign d : Char}
    {ds : List Char} (hs : sign = '+' ∨ sign = '-') (hd : d.isDigit = true)
    (hds : ∀ e ∈ ds, e.isDigit = true) : p.after ('e' :: sign :: d :: ds) = some .exponent := by
  have h1 : p.next 'e' = some .mark := by rcases hp with rfl | rfl <;> rfl
  have h2 : NumberPart.mark.next sign = some .sign := by rcases hs with rfl | rfl <;> rfl
  have h3 : NumberPart.sign.next d = some .exponent := by simp [NumberPart.next, hd]
  rw [NumberPart.after, h1, Option.bind_some, NumberPart.after, h2, Option.bind_some,
    NumberPart.after, h3]
  exact NumberPart.after_digits rfl hds

theorem numeral_of_digits {ds : List Char} (hne : ds ≠ []) (h : ∀ d ∈ ds, d.isDigit = true) :
    Numeral .whole ds := by
  cases ds with
  | nil => exact absurd rfl hne
  | cons d rest =>
    exact ⟨d, rest, rfl, h d List.mem_cons_self,
      NumberPart.after_digits rfl fun e he => h e (List.mem_cons_of_mem _ he), rfl⟩

theorem numeral_of_fraction {ds es : List Char} (hne : ds ≠ []) (h : ∀ d ∈ ds, d.isDigit = true)
    (h' : ∀ e ∈ es, e.isDigit = true) : Numeral .fraction (ds ++ '.' :: es) := by
  obtain ⟨c, rest, rfl, hc, hrest, -⟩ := numeral_of_digits hne h
  refine ⟨c, rest ++ '.' :: es, rfl, hc, ?_, rfl⟩
  rw [NumberPart.after_append, hrest]
  exact NumberPart.after_digits (p := .fraction) rfl h'

theorem Numeral.exponent {p : NumberPart} (hp : p = .whole ∨ p = .fraction) {cs : List Char}
    (h : Numeral p cs) {sign d : Char} {ds : List Char} (hs : sign = '+' ∨ sign = '-')
    (hd : d.isDigit = true) (hds : ∀ e ∈ ds, e.isDigit = true) :
    Numeral .exponent (cs ++ 'e' :: sign :: d :: ds) := by
  obtain ⟨c, rest, rfl, hc, hrest, -⟩ := h
  refine ⟨c, rest ++ 'e' :: sign :: d :: ds, rfl, hc, ?_, rfl⟩
  rw [NumberPart.after_append, hrest]
  exact NumberPart.after_exponent hp hs hd hds

theorem isDigit_of_mem_toDigits {n : Nat} : ∀ d ∈ Nat.toDigits 10 n, d.isDigit = true :=
  fun _ hd => Nat.isDigit_of_mem_toDigits (by decide) (by decide) hd

theorem isDigit_of_mem_zeros {n : Nat} : ∀ d ∈ List.replicate n '0', d.isDigit = true := by
  intro d hd
  rw [List.eq_of_mem_replicate hd]
  rfl

theorem numeral_toDigits (n : Nat) : Numeral .whole (Nat.toDigits 10 n) :=
  numeral_of_digits Nat.toDigits_ne_nil isDigit_of_mem_toDigits

/-! ## The layouts of a decimal -/

open Double

theorem digits_padLeft (width n : Nat) :
    ∃ d ds, padLeft width (digitChars n) = d :: ds ∧ d.isDigit = true ∧ ∀ e ∈ ds, e.isDigit = true := by
  have hall : ∀ d ∈ padLeft width (digitChars n), d.isDigit = true := by
    intro d hd
    rcases List.mem_append.mp hd with hd | hd
    · exact isDigit_of_mem_zeros d hd
    · exact isDigit_of_mem_toDigits d hd
  cases hp : padLeft width (digitChars n) with
  | nil => simp [padLeft, digitChars] at hp
  | cons d ds =>
    rw [hp] at hall
    exact ⟨d, ds, rfl, hall d List.mem_cons_self, fun e he => hall e (List.mem_cons_of_mem _ he)⟩

theorem numeral_render (l : Double.Layout) (d : Decimal) :
    ∃ p, p ≠ .whole ∧ Numeral p (l.render d) := by
  have hdig : ∀ c ∈ digitChars d.digits, c.isDigit = true := isDigit_of_mem_toDigits
  have hexp : ∀ {p : NumberPart}, p = .whole ∨ p = .fraction → ∀ {cs : List Char}, Numeral p cs →
      ∀ e, Numeral .exponent (cs ++ l.exponentPart e) := by
    intro p hp cs hcs e
    obtain ⟨c, ds, hpad, hc, hds⟩ := digits_padLeft l.exponentDigits e.natAbs
    rw [Double.Layout.exponentPart, hpad]
    exact hcs.exponent hp (by split <;> simp) hc hds
  unfold Double.Layout.render
  simp only
  split
  · refine ⟨.exponent, by decide, ?_⟩
    split
    · rename_i hnil
      exact absurd hnil Nat.toDigits_ne_nil
    · rename_i only hds
      rw [hds] at hdig
      have hone : Numeral .whole [only] := numeral_of_digits (by simp) hdig
      exact hexp (Or.inl rfl) hone _
    · rename_i first more _ hds
      rw [hds] at hdig
      have hfirst : ∀ c ∈ [first], c.isDigit = true := fun c hc => hdig c (by simp_all)
      have hmore : ∀ c ∈ more, c.isDigit = true := fun c hc => hdig c (List.mem_cons_of_mem _ hc)
      have hpoint : Numeral .fraction ([first] ++ '.' :: more) :=
        numeral_of_fraction (by simp) hfirst hmore
      exact hexp (Or.inr rfl) hpoint _
  · refine ⟨.fraction, by decide, ?_⟩
    split
    · apply numeral_of_fraction
      · simp [digitChars]
      · intro c hc
        rcases List.mem_append.mp hc with hc | hc
        · exact hdig c hc
        · exact isDigit_of_mem_zeros c hc
      · simp
    · split
      · apply numeral_of_fraction
        · simp [digitChars]
        · exact fun c hc => hdig c (List.mem_of_mem_take hc)
        · exact fun c hc => hdig c (List.mem_of_mem_drop hc)
      · have hzero : ∀ c ∈ ['0'], c.isDigit = true := by simp
        refine numeral_of_fraction (List.cons_ne_nil '0' []) hzero ?_
        intro c hc
        rcases List.mem_append.mp hc with hc | hc
        · exact isDigit_of_mem_zeros c hc
        · exact hdig c hc

end Typings.Script
