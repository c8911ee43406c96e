import DynamicValues.Binary64
import Mathlib.Tactic.Ring

/-!
Magnitudes stand for numbers that grow with them, so two doubles stand for the same number only if they
are the same double or both zeros. Numbers that a word could hold are never infinite.
-/

set_option autoImplicit false

namespace DynamicValues.Binary64

theorem unitsOf_lt_mul_pow (m : Nat) : unitsOf m < leadBit * 2 ^ (m / leadBit) := by
  have fraction : m % leadBit < leadBit := Nat.mod_lt _ (by decide)
  simp only [unitsOf]
  split
  · next subnormal => simpa [subnormal] using fraction
  · next normal =>
    obtain ⟨e, he⟩ := Nat.exists_eq_succ_of_ne_zero normal
    rw [he, Nat.shiftLeft_eq, Nat.succ_sub_one, Nat.pow_succ]
    calc (leadBit + m % leadBit) * 2 ^ e
        < (leadBit + leadBit) * 2 ^ e := Nat.mul_lt_mul_of_pos_right (by omega) (Nat.two_pow_pos e)
      _ = leadBit * (2 ^ e * 2) := by ring

theorem mul_pow_le_unitsOf {m : Nat} (normal : m / leadBit ≠ 0) :
    leadBit * 2 ^ (m / leadBit - 1) ≤ unitsOf m := by
  simp only [unitsOf, if_neg normal, Nat.shiftLeft_eq]
  exact Nat.mul_le_mul_right _ (Nat.le_add_right _ _)

theorem unitsOf_lt_unitsOf {m n : Nat} (h : m < n) : unitsOf m < unitsOf n := by
  have exponents : m / leadBit ≤ n / leadBit := Nat.div_le_div_right h.le
  rcases Nat.eq_or_lt_of_le exponents with same | below
  · have fractions : m % leadBit < n % leadBit := by
      have hm := Nat.div_add_mod m leadBit
      have hn := Nat.div_add_mod n leadBit
      rw [same] at hm
      omega
    simp only [unitsOf, same]
    split
    · exact fractions
    · rw [Nat.shiftLeft_eq, Nat.shiftLeft_eq]
      exact Nat.mul_lt_mul_of_pos_right (by omega) (Nat.two_pow_pos _)
  · have powers : 2 ^ (m / leadBit) ≤ 2 ^ (n / leadBit - 1) :=
      Nat.pow_le_pow_right (by decide) (Nat.le_sub_one_of_lt below)
    calc unitsOf m
        < leadBit * 2 ^ (m / leadBit) := unitsOf_lt_mul_pow m
      _ ≤ leadBit * 2 ^ (n / leadBit - 1) := Nat.mul_le_mul_left _ powers
      _ ≤ unitsOf n := mul_pow_le_unitsOf (Nat.ne_zero_of_lt below)

theorem unitsOf_inj {m n : Nat} : unitsOf m = unitsOf n ↔ m = n := by
  refine ⟨fun h => ?_, fun h => by rw [h]⟩
  rcases Nat.lt_trichotomy m n with below | same | above
  · exact absurd h (unitsOf_lt_unitsOf below).ne
  · exact same
  · exact absurd h (unitsOf_lt_unitsOf above).ne'

theorem lt_of_unitsOf_lt {m n : Nat} (h : unitsOf m < unitsOf n) : m < n := by
  by_contra above
  rcases Nat.eq_or_lt_of_le (Nat.le_of_not_lt above) with same | below
  · exact absurd h (by rw [same]; exact Nat.lt_irrefl _)
  · exact absurd h (unitsOf_lt_unitsOf below).asymm

theorem natAbs_units (x : Binary64) : x.units.natAbs = unitsOf x.magnitude := by
  unfold units
  split <;> simp

theorem eq_of_parts {x y : Binary64} (sign : x.negative = y.negative)
    (magnitude : x.magnitude = y.magnitude) : x = y := by
  have small : ∀ z : Binary64, z.bits.toNat < 2 * signBit := fun z => z.bits.toNat_lt
  have hx := small x
  have hy := small y
  have signs : signBit ≤ x.bits.toNat ↔ signBit ≤ y.bits.toNat := by
    simpa [negative] using sign
  have words : x.bits.toNat = y.bits.toNat := by
    unfold Binary64.magnitude at magnitude
    generalize signBit = s at *
    by_cases below : x.bits.toNat < s
    · rw [Nat.mod_eq_of_lt below, Nat.mod_eq_of_lt (by omega)] at magnitude
      exact magnitude
    · rw [Nat.mod_eq_sub_mod (by omega), Nat.mod_eq_sub_mod (by omega : s ≤ y.bits.toNat),
        Nat.mod_eq_of_lt (by omega), Nat.mod_eq_of_lt (by omega)] at magnitude
      omega
  cases x
  cases y
  exact congrArg Binary64.mk (UInt64.toNat_inj.1 words)

/-- Only the two zeros share a number. -/
theorem eq_of_units_eq {x y : Binary64} (h : x.units = y.units) (nonzero : x.units ≠ 0) : x = y := by
  have magnitudes : x.magnitude = y.magnitude := by
    rw [← unitsOf_inj, ← natAbs_units, ← natAbs_units, h]
  refine eq_of_parts ?_ magnitudes
  simp only [units, magnitudes] at h nonzero
  cases hx : x.negative <;> cases hy : y.negative <;> simp only [hx, hy] at h nonzero <;> grind

theorem isFinite_iff (x : Binary64) : x.isFinite = true ↔ x.units.natAbs < unitsOf infinite := by
  rw [natAbs_units, isFinite, decide_eq_true_iff]
  exact ⟨unitsOf_lt_unitsOf, lt_of_unitsOf_lt⟩

theorem not_isNaN_of_isFinite {x : Binary64} (h : x.isFinite = true) : x.isNaN = false := by
  simp only [isFinite, isNaN, decide_eq_true_iff, decide_eq_false_iff_not] at *
  omega

theorem beq_iff {x y : Binary64} :
    x.beq y = true ↔ x.isNaN = false ∧ y.isNaN = false ∧ x.units = y.units := by
  simp [beq, and_assoc]

theorem lt_iff {x y : Binary64} :
    x.lt y = true ↔ x.isNaN = false ∧ y.isNaN = false ∧ x.units < y.units := by
  simp [lt, and_assoc]

theorem le_iff {x y : Binary64} :
    x.le y = true ↔ x.isNaN = false ∧ y.isNaN = false ∧ x.units ≤ y.units := by
  simp [le, and_assoc]

end DynamicValues.Binary64
