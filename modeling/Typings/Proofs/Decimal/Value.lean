import Mathlib
import Typings.Decimal.Double

/-!
# The value of a double

A finite double stands for a rational number, and counts as an integer if, and only if, this number
is one.
-/

namespace Typings.Double

/-- The number that a finite double stands for. -/
def value? : Double → Option ℚ
  | .finite negative significand exponent =>
    some ((if negative then -1 else 1) * significand * 2 ^ exponent)
  | _ => none

theorem exists_value_of_isFinite {x : Double} (h : x.isFinite = true) : ∃ q, x.value? = some q := by
  cases x with
  | finite => exact ⟨_, rfl⟩
  | infinite | nan => cases h

/-- The magnitude of a double, if it is whole. -/
def wholeMagnitude? (significand : Nat) (exponent : Int) : Option Nat :=
  if 0 ≤ exponent then some (significand * Nat.pow 2 exponent.toNat)
  else if significand % Nat.pow 2 (-exponent).toNat = 0 then some (significand / Nat.pow 2 (-exponent).toNat)
  else none

theorem toInt?_finite (negative : Bool) (significand : Nat) (exponent : Int) :
    (Double.finite negative significand exponent).toInt? =
      (wholeMagnitude? significand exponent).map fun m : Nat => if negative then -(m : Int) else m := by
  have htoInt : (Double.finite negative significand exponent).toInt? =
      (do return ((← wholeMagnitude? significand exponent) : Int)).map fun m => if negative then -m else m := rfl
  rw [htoInt]
  cases wholeMagnitude? significand exponent <;> rfl

theorem wholeMagnitude?_eq_some_iff {significand m : Nat} {exponent : Int} :
    wholeMagnitude? significand exponent = some m ↔ (significand * 2 ^ exponent : ℚ) = m := by
  unfold wholeMagnitude?
  have hpow (k : Nat) : Nat.pow 2 k = 2 ^ k := rfl
  by_cases hexp : 0 ≤ exponent
  · obtain ⟨k, rfl⟩ := Int.eq_ofNat_of_zero_le hexp
    rw [if_pos hexp, hpow, Option.some.injEq, Int.toNat_natCast, zpow_natCast]
    norm_cast
  · obtain ⟨k, hk⟩ : ∃ k : Nat, exponent = -(k : Int) := ⟨exponent.natAbs, by omega⟩
    subst hk
    have hpos : (0 : ℚ) < 2 ^ k := by positivity
    rw [if_neg hexp, hpow, neg_neg, Int.toNat_natCast, zpow_neg, zpow_natCast, ← div_eq_mul_inv,
      div_eq_iff hpos.ne']
    -- The quotient is whole exactly if the power of two divides the significand.
    have hcast : ((significand : ℚ) = m * 2 ^ k) ↔ significand = m * 2 ^ k := by norm_cast
    rw [hcast]
    split
    · rename_i hdvd
      rw [Option.some.injEq]
      have := Nat.div_add_mod significand (2 ^ k)
      constructor
      · rintro rfl
        rw [Nat.mul_comm]
        omega
      · rintro rfl
        exact Nat.mul_div_cancel _ (by positivity)
    · rename_i hdvd
      refine iff_of_false nofun ?_
      rintro rfl
      exact hdvd (Nat.mul_mod_left _ _)

theorem exists_natCast_iff {q : ℚ} (hq : 0 ≤ q) (negative : Bool) (n : Int) :
    (∃ m : Nat, q = m ∧ (if negative then -(m : Int) else m) = n) ↔ (if negative then -1 else 1) * q = n := by
  constructor
  · rintro ⟨m, rfl, rfl⟩
    cases negative <;> simp
  · intro hn
    cases negative with
    | false =>
      rw [if_neg Bool.false_ne_true, one_mul] at hn
      subst hn
      obtain ⟨m, rfl⟩ := Int.eq_ofNat_of_zero_le (Int.cast_nonneg_iff.mp hq)
      exact ⟨m, Int.cast_natCast m, rfl⟩
    | true =>
      rw [if_pos rfl, neg_one_mul] at hn
      obtain rfl : q = ((-n : Int) : ℚ) := by rw [Int.cast_neg, ← hn, neg_neg]
      obtain ⟨m, hm⟩ := Int.eq_ofNat_of_zero_le (Int.cast_nonneg_iff.mp hq)
      exact ⟨m, by rw [hm, Int.cast_natCast], by rw [if_pos rfl]; omega⟩

theorem toInt?_eq_some_iff {x : Double} {n : Int} : x.toInt? = some n ↔ x.value? = some (n : ℚ) := by
  cases x with
  | finite negative significand exponent =>
    have hnonneg : (0 : ℚ) ≤ significand * 2 ^ exponent := by positivity
    rw [toInt?_finite, value?, Option.map_eq_some_iff, Option.some.injEq, mul_assoc,
      ← exists_natCast_iff hnonneg]
    simp only [wholeMagnitude?_eq_some_iff]
  | infinite | nan => exact iff_of_false nofun nofun

end Typings.Double
