import DynamicValues.Decimal.Layout
import DynamicValues.Proofs.Rounding

/-!
Decimals that read back. A decimal stands for the same double however many zeros end its coefficient, and
the shortest decimal of a double reads back as that double.
-/

set_option autoImplicit false

namespace DynamicValues

namespace Decimal

open Binary64 (nearest one unitsOf infinite)

theorem magnitude_eq (d : Decimal) :
    d.magnitude = if d.exponent < 0 then nearest (d.coefficient * one) (10 ^ d.exponent.natAbs)
      else nearest (d.coefficient * 10 ^ d.exponent.natAbs * one) 1 := by
  apply Binary64.magnitude_ofParts
  split <;> exact (Binary64.nearest_le_infinite _ _).trans_lt Binary64.infinite_lt_signBit

theorem ofDecimal_eq (negative : Bool) (coefficient : Nat) (exponent : Int) :
    Binary64.ofDecimal negative coefficient exponent =
      .ofParts negative (magnitude ⟨coefficient, exponent⟩) := by
  rw [magnitude_eq]
  rfl

/-- A decimal as a quotient of integers, which may hold any power of ten too many. -/
theorem magnitude_eq_nearest (c : Nat) {e : Int} {a k : Nat} (sum : (a : Int) = e + k) :
    magnitude ⟨c, e⟩ = nearest (c * 10 ^ a * one) (10 ^ k) := by
  rw [magnitude_eq]
  dsimp only
  split
  · next below =>
    have exponents : k = a + e.natAbs := by omega
    rw [exponents, Nat.pow_add, ← Binary64.nearest_mul_left (Nat.pow_pos (n := a) (by decide : 0 < 10))]
    congr 1
    ring
  · next above =>
    have exponents : a = k + e.natAbs := by omega
    rw [exponents, Nat.pow_add, ← Binary64.nearest_mul_left (Nat.pow_pos (n := k) (by decide : 0 < 10)) _ 1]
    congr 1 <;> ring

/-- Zeros at the end of the coefficient count as powers of ten. -/
theorem magnitude_mul_pow (c j : Nat) (e : Int) : magnitude ⟨c * 10 ^ j, e⟩ = magnitude ⟨c, e + j⟩ := by
  have sum : ((e + e.natAbs).toNat : Int) = e + e.natAbs := by omega
  have sum' : (((e + e.natAbs).toNat + j : Nat) : Int) = e + j + e.natAbs := by omega
  rw [magnitude_eq_nearest _ sum, magnitude_eq_nearest _ sum', Nat.pow_add, Nat.mul_assoc c,
    Nat.mul_comm (10 ^ j)]

theorem nearest_zero (den : Nat) : nearest 0 den = 0 := by
  have quotient : Binary64.roundDiv 0 den = 0 := by simp [Binary64.roundDiv]
  simp [nearest, quotient]

theorem magnitude_zero (e : Int) : magnitude ⟨0, e⟩ = 0 := by
  rw [magnitude_eq]
  split <;> simp only [Nat.zero_mul, nearest_zero]

theorem magnitude_trim (fuel : Nat) (d : Decimal) : (trim fuel d).magnitude = d.magnitude := by
  induction fuel generalizing d with
  | zero => rfl
  | succ fuel ih =>
    rw [trim]
    split
    · next zero =>
      have scaled := magnitude_mul_pow (d.coefficient / 10) 1 d.exponent
      rw [Nat.pow_one, Nat.div_mul_cancel (Nat.dvd_of_mod_eq_zero zero)] at scaled
      rw [ih]
      exact scaled.symm
    · rfl

theorem nearest_mul_five_pow (u n : Nat) : nearest (u * 5 ^ n * 10 ^ 0 * 2 ^ n) (10 ^ n) = nearest u 1 := by
  have ten : 10 ^ n = 5 ^ n * 2 ^ n := by rw [← Nat.mul_pow]
  rw [← Binary64.nearest_mul_left (Nat.pow_pos (n := n) (by decide : 0 < 10)) u 1, ten]
  congr 1 <;> ring

/-- Units of `2 ^ -n` as a decimal with `n` places. -/
theorem magnitude_mul_five_pow (u : Nat) {n : Nat} {e : Int} (places : e = -n) (unit : one = 1 <<< n) :
    magnitude ⟨u * Nat.pow 5 n, e⟩ = nearest u 1 := by
  have sum : ((0 : Nat) : Int) = e + n := by omega
  rw [magnitude_eq_nearest _ sum, unit, Nat.one_shiftLeft]
  exact nearest_mul_five_pow u n

theorem magnitude_exact {m : Nat} (bound : m ≤ infinite) : (exact m).magnitude = m := by
  have places : (-1074 : Int) = -(1074 : Nat) := by decide
  have unit : one = 1 <<< 1074 := by rw [one]
  rw [exact]
  generalize (1074 : Nat) = n at places unit ⊢
  rw [magnitude_mul_five_pow (unitsOf m) places unit, Binary64.nearest_unitsOf bound]

theorem magnitude_of_neighbour? {tie : Tie} {m num den : Nat} {e : Int} {d : Decimal}
    (found : neighbour? tie m num den e = some d) : d.magnitude = m := by
  rw [neighbour?] at found
  have reads := List.find?_some found
  exact eq_of_beq reads

/-- The shortest decimal of a double reads back as that double. -/
theorem magnitude_shortest (tie : Tie) {m : Nat} (bound : m ≤ infinite) : (shortest tie m).magnitude = m := by
  rw [shortest, magnitude_trim]
  cases found : (List.range 17).findSome? fun digits : Nat =>
      neighbour? tie m (unitsOf m) one (leading (unitsOf m) one - digits) with
  | none => exact magnitude_exact bound
  | some d =>
    obtain ⟨digits, -, near⟩ := List.exists_of_findSome?_eq_some found
    exact magnitude_of_neighbour? near

theorem coefficient_shortest_ne_zero (tie : Tie) {m : Nat} (positive : m ≠ 0) (bound : m ≤ infinite) :
    (shortest tie m).coefficient ≠ 0 := by
  intro zero
  have reads : magnitude ⟨0, (shortest tie m).exponent⟩ = m := by
    rw [← zero]
    exact magnitude_shortest tie bound
  rw [magnitude_zero] at reads
  exact positive reads.symm

end Decimal
end DynamicValues
