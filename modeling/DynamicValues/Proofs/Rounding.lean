import DynamicValues.Proofs.Binary64

/-!
Rounding finds the nearest double. The doubles near a number of units are the multiples of a power of two
there, and rounding takes the nearest multiple, so no other double is nearer. A double is its own nearest
one, and what is rounded counts only as a quotient.
-/

set_option autoImplicit false

namespace DynamicValues.Binary64

theorem leadBit_eq : leadBit = 2 ^ 52 := by decide

theorem roundDiv_mul_left {k : Nat} (positive : 0 < k) (num den : Nat) :
    roundDiv (k * num) (k * den) = roundDiv num den := by
  have above : k * den < 2 * (k * (num % den)) ↔ den < 2 * (num % den) := by
    rw [Nat.mul_left_comm, Nat.mul_lt_mul_left positive]
  have half : 2 * (k * (num % den)) = k * den ↔ 2 * (num % den) = den := by
    rw [Nat.mul_left_comm, Nat.mul_right_inj positive.ne']
  simp only [roundDiv, Nat.mul_div_mul_left _ _ positive, Nat.mul_mod_mul_left, above, half]

/-- What is rounded counts only as a quotient. -/
theorem nearest_mul_left {k : Nat} (positive : 0 < k) (num den : Nat) :
    nearest (k * num) (k * den) = nearest num den := by
  simp only [nearest, Nat.mul_div_mul_left _ _ positive, Nat.shiftLeft_eq, Nat.mul_assoc,
    roundDiv_mul_left positive]

/-- How far apart two numbers are. -/
def gap (a b : Nat) : Nat := ((a : Int) - b).natAbs

/-- Rounding is off by at most a half, and by a half only toward an even integer. -/
theorem roundDiv_error (num : Nat) {den : Nat} (positive : 0 < den) :
    2 * gap (roundDiv num den * den) num ≤ den ∧
      (2 * gap (roundDiv num den * den) num = den → roundDiv num den % 2 = 0) := by
  have split := Nat.div_add_mod num den
  have small := Nat.mod_lt num positive
  simp only [roundDiv, gap]
  generalize num / den = q at *
  generalize num % den = r at *
  rw [← split, Nat.mul_comm den q]
  split
  · rw [Nat.add_mul, Nat.one_mul]
    omega
  · omega

/-- No multiple is nearer than the rounded one, and another is as near only if the rounded one is even. -/
theorem roundDiv_closest (num : Nat) {den : Nat} (positive : 0 < den) (k : Nat) :
    gap (roundDiv num den * den) num ≤ gap (k * den) num ∧
      (gap (k * den) num = gap (roundDiv num den * den) num → k ≠ roundDiv num den →
        roundDiv num den % 2 = 0) := by
  obtain ⟨error, even⟩ := roundDiv_error num positive
  generalize roundDiv num den = q at *
  by_cases same : k = q
  · subst same
    exact ⟨Nat.le_refl _, fun _ other => absurd rfl other⟩
  · have apart : den ≤ gap (k * den) num + gap (q * den) num := by
      rcases Nat.lt_or_gt_of_ne same with below | above
      · have step : (k + 1) * den ≤ q * den := Nat.mul_le_mul_right den below
        rw [Nat.succ_mul] at step
        unfold gap
        omega
      · have step : (q + 1) * den ≤ k * den := Nat.mul_le_mul_right den above
        rw [Nat.succ_mul] at step
        unfold gap
        omega
    exact ⟨by omega, fun tie _ => even (by omega)⟩

/-- The binary places below the significand of the magnitude nearest to `num / den`. -/
def shift (num den : Nat) : Nat := (num / den).log2 - 52

def significand (num den : Nat) : Nat := roundDiv num (den * 2 ^ shift num den)

/-- The nearest magnitude, if there were no infinity. -/
def unbounded (num den : Nat) : Nat := shift num den * leadBit + significand num den

theorem nearest_eq (num den : Nat) : nearest num den = min infinite (unbounded num den) := by
  simp only [nearest, unbounded, significand, shift, Nat.shiftLeft_eq]

theorem unitsOf_shifted {s q : Nat} (lower : s = 0 ∨ leadBit ≤ q) (upper : q ≤ 2 * leadBit) :
    unitsOf (s * leadBit + q) = q * 2 ^ s := by
  have positive : 0 < leadBit := by decide
  have parts {e f : Nat} (below : f < leadBit) :
      unitsOf (e * leadBit + f) = if e = 0 then f else (leadBit + f) * 2 ^ (e - 1) := by
    rw [unitsOf, Nat.mul_comm e, Nat.mul_add_div positive, Nat.mul_add_mod, Nat.div_eq_of_lt below,
      Nat.mod_eq_of_lt below, Nat.add_zero, Nat.shiftLeft_eq]
  rcases Nat.lt_or_ge q leadBit with subnormal | normal
  · obtain rfl : s = 0 := by omega
    rw [parts subnormal]
    simp
  · rcases Nat.lt_or_eq_of_le upper with inside | carried
    · have split : s * leadBit + q = (s + 1) * leadBit + (q - leadBit) := by
        rw [Nat.succ_mul]
        omega
      rw [split, parts (by omega), if_neg (Nat.succ_ne_zero s), Nat.add_sub_cancel,
        Nat.add_sub_cancel' normal]
    · have split : s * leadBit + q = (s + 2) * leadBit + 0 := by
        rw [carried]
        ring
      rw [split, parts positive, if_neg (Nat.succ_ne_zero _), carried, Nat.add_sub_assoc (by omega),
        Nat.pow_succ]
      ring

theorem roundDiv_bounds (num den : Nat) : num / den ≤ roundDiv num den ∧ roundDiv num den ≤ num / den + 1 := by
  simp only [roundDiv]
  split <;> omega

theorem le_div_of_shift_ne_zero {num den : Nat} (large : shift num den ≠ 0) :
    leadBit * 2 ^ shift num den ≤ num / den := by
  have place : (num / den).log2 = 52 + shift num den := by
    unfold shift at *
    omega
  have nonzero : num / den ≠ 0 := by
    intro zero
    simp [shift, zero] at large
  rw [leadBit_eq, ← Nat.pow_add, ← place]
  exact Nat.log2_self_le nonzero

theorem significand_bounds (num den : Nat) :
    (shift num den = 0 ∨ leadBit ≤ significand num den) ∧ significand num den ≤ 2 * leadBit := by
  obtain ⟨lower, upper⟩ := roundDiv_bounds num (den * 2 ^ shift num den)
  rw [← Nat.div_div_eq_div_mul] at lower upper
  have top : num / den < 2 ^ (53 + shift num den) := by
    refine Nat.lt_of_lt_of_le Nat.lt_log2_self (Nat.pow_le_pow_right (by decide) ?_)
    unfold shift
    omega
  have quotient : num / den / 2 ^ shift num den < 2 * leadBit := by
    apply Nat.div_lt_of_lt_mul
    rw [leadBit_eq]
    calc num / den < 2 ^ (53 + shift num den) := top
      _ = 2 ^ shift num den * (2 * 2 ^ 52) := by ring
  refine ⟨?_, by unfold significand; omega⟩
  by_cases small : shift num den = 0
  · exact .inl small
  · right
    refine Nat.le_trans ?_ lower
    rw [Nat.le_div_iff_mul_le (Nat.two_pow_pos _)]
    exact le_div_of_shift_ne_zero small

theorem unitsOf_unbounded (num den : Nat) :
    unitsOf (unbounded num den) = significand num den * 2 ^ shift num den :=
  unitsOf_shifted (significand_bounds num den).1 (significand_bounds num den).2

/-- The doubles from `leadBit * 2 ^ s` on are multiples of `2 ^ s`. -/
theorem dvd_unitsOf_or_lt (s m : Nat) : 2 ^ s ∣ unitsOf m ∨ unitsOf m < leadBit * 2 ^ s := by
  by_cases low : m / leadBit ≤ s
  · right
    calc unitsOf m < leadBit * 2 ^ (m / leadBit) := unitsOf_lt_mul_pow m
      _ ≤ leadBit * 2 ^ s := Nat.mul_le_mul_left _ (Nat.pow_le_pow_right (by decide) low)
  · left
    simp only [unitsOf, if_neg (show m / leadBit ≠ 0 by omega), Nat.shiftLeft_eq]
    exact Dvd.dvd.mul_left (Nat.pow_dvd_pow 2 (by omega)) _

/-- No magnitude is nearer than the rounded one, and another is as near only if the rounded one is even. A magnitude
off the grid lies below it, where the lowest point of the grid is nearer. -/
theorem unbounded_closest (num : Nat) {den : Nat} (positive : 0 < den) (m : Nat) :
    gap (unitsOf (unbounded num den) * den) num ≤ gap (unitsOf m * den) num ∧
      (gap (unitsOf m * den) num = gap (unitsOf (unbounded num den) * den) num →
        unitsOf m ≠ unitsOf (unbounded num den) → unbounded num den % 2 = 0) := by
  have grid : 0 < 2 ^ shift num den * den := Nat.mul_pos (Nat.two_pow_pos _) positive
  have rounds := roundDiv_closest num grid
  have parity : unbounded num den % 2 = significand num den % 2 := by
    have whole : leadBit = 2 * (leadBit / 2) := by decide
    rw [unbounded, whole, Nat.mul_left_comm, Nat.mul_add_mod]
  rw [Nat.mul_comm _ den] at rounds
  rw [unitsOf_unbounded, parity, Nat.mul_assoc, Nat.mul_comm _ den]
  by_cases multiple : 2 ^ shift num den ∣ unitsOf m
  · obtain ⟨k, units⟩ := multiple
    rw [units, Nat.mul_comm _ k, Nat.mul_assoc, Nat.mul_comm _ den]
    obtain ⟨closest, even⟩ := rounds k
    refine ⟨closest, fun tie other => even tie ?_⟩
    rintro rfl
    exact other rfl
  · have below := (dvd_unitsOf_or_lt (shift num den) m).resolve_left multiple
    have large : shift num den ≠ 0 := by
      intro zero
      rw [zero] at multiple
      exact multiple (one_dvd _)
    have bottom : leadBit * (den * 2 ^ shift num den) ≤ num := by
      have := Nat.mul_le_of_le_div _ _ _ (le_div_of_shift_ne_zero large)
      rwa [Nat.mul_assoc, Nat.mul_comm _ den] at this
    have farther : unitsOf m * den < leadBit * (den * 2 ^ shift num den) := by
      rw [Nat.mul_comm den, ← Nat.mul_assoc]
      exact Nat.mul_lt_mul_of_pos_right below positive
    have nearer : gap (leadBit * (den * 2 ^ shift num den)) num < gap (unitsOf m * den) num := by
      generalize leadBit * (den * 2 ^ shift num den) = lowest at *
      unfold gap
      omega
    have closest := (rounds leadBit).1.trans_lt nearer
    exact ⟨closest.le, fun tie _ => absurd tie closest.ne'⟩

/-- A magnitude is the one nearest to what it stands for. -/
theorem nearest_unitsOf {m : Nat} (bound : m ≤ infinite) : nearest (unitsOf m) 1 = m := by
  have closest := (unbounded_closest (unitsOf m) Nat.one_pos m).1
  have same : unitsOf (unbounded (unitsOf m) 1) = unitsOf m := by
    unfold gap at closest
    omega
  rw [nearest_eq, unitsOf_inj.1 same, Nat.min_eq_right bound]

theorem nearest_le_infinite (num den : Nat) : nearest num den ≤ infinite := Nat.min_le_left _ _

theorem infinite_lt_signBit : infinite < signBit := by decide

theorem toNat_bits_ofParts {negative : Bool} {m : Nat} (bound : m < signBit) :
    (ofParts negative m).bits.toNat = m + if negative then signBit else 0 := by
  have room : signBit + signBit = UInt64.size := by decide
  apply UInt64.toNat_ofNat_of_lt'
  split <;> omega

theorem negative_ofParts {negative : Bool} {m : Nat} (bound : m < signBit) :
    (ofParts negative m).negative = negative := by
  rw [Binary64.negative, toNat_bits_ofParts bound]
  cases negative <;> simp [bound]

theorem magnitude_ofParts {negative : Bool} {m : Nat} (bound : m < signBit) :
    (ofParts negative m).magnitude = m := by
  rw [magnitude, toNat_bits_ofParts bound]
  cases negative <;> simp [Nat.mod_eq_of_lt bound]

theorem magnitude_lt_signBit (x : Binary64) : x.magnitude < signBit := Nat.mod_lt _ (by decide)

theorem ofParts_self (x : Binary64) : ofParts x.negative x.magnitude = x :=
  eq_of_parts (negative_ofParts x.magnitude_lt_signBit) (magnitude_ofParts x.magnitude_lt_signBit)

/-- `x` is the finite double nearest to the integer `n`, the even one of two. -/
structure Nearest (n : Int) (x : Binary64) : Prop where
  finite : x.isFinite = true
  closest : ∀ y : Binary64, y.isFinite = true → (x.units - n * one).natAbs ≤ (y.units - n * one).natAbs
  even : ∀ y : Binary64, y.isFinite = true → (y.units - n * one).natAbs = (x.units - n * one).natAbs →
    y.units ≠ x.units → x.magnitude % 2 = 0

theorem log2_mul_shiftLeft_lt {n a b : Nat} (positive : 0 < a) (small : n < 2 ^ a) :
    (n * 1 <<< b).log2 < a + b := by
  rw [Nat.one_shiftLeft]
  by_cases zero : n = 0
  · rw [zero, Nat.zero_mul, Nat.log2_zero]
    omega
  · have nonzero : n * 2 ^ b ≠ 0 := Nat.mul_ne_zero zero (Nat.two_pow_pos b).ne'
    rw [Nat.log2_lt nonzero, Nat.pow_add]
    exact Nat.mul_lt_mul_of_pos_right small (Nat.two_pow_pos b)

theorem unbounded_lt_infinite {n : Nat} (small : n < 2 ^ 64) : unbounded (n * one) 1 < infinite := by
  have room : infinite = 2047 * leadBit := by decide
  have places : shift (n * one) 1 ≤ 1085 := by
    have log : (n * one).log2 < 64 + 1074 := log2_mul_shiftLeft_lt (by decide) small
    rw [shift, Nat.div_one]
    omega
  have top := (significand_bounds (n * one) 1).2
  have product := Nat.mul_le_mul_right leadBit places
  have positive : 0 < leadBit := by decide
  rw [unbounded, room]
  omega

theorem ofInt_natCast {n : Nat} (small : n < 2 ^ 64) : ofInt n = ofParts false (unbounded (n * one) 1) := by
  have nonneg : ¬((n : Int) * one < 0) := by
    rw [← Nat.cast_mul]
    exact Int.not_lt.2 (Int.natCast_nonneg _)
  have units : ((n : Int) * one).natAbs = n * one := by rw [← Nat.cast_mul, Int.natAbs_natCast]
  rw [ofInt, ofUnits, units, nearest_eq, Nat.min_eq_right (unbounded_lt_infinite small).le,
    decide_eq_false nonneg, Bool.and_false, Bool.or_false]

/-- An integer becomes the double nearest to it. -/
theorem nearest_ofInt {n : Nat} (positive : 0 < n) (small : n < 2 ^ 64) : Nearest n (ofInt n) := by
  have below := unbounded_lt_infinite small
  have value := ofInt_natCast small
  have bounded := below.trans infinite_lt_signBit
  have units : (ofInt n).units = unitsOf (unbounded (n * one) 1) := by
    rw [value, Binary64.units, negative_ofParts bounded, magnitude_ofParts bounded]
    rfl
  have closest (y : Binary64) := unbounded_closest (n * one) Nat.one_pos y.magnitude
  have mirrored (y : Binary64) : y.units = unitsOf y.magnitude ∨ y.units = -unitsOf y.magnitude := by
    unfold Binary64.units
    split <;> simp
  simp only [gap, Nat.mul_one, Nat.cast_mul] at closest
  have above : 0 < (n : Int) * one := Int.mul_pos (by omega) (by decide)
  constructor
  · rw [value, isFinite, magnitude_ofParts bounded]
    exact decide_eq_true below
  · intro y _
    obtain ⟨nearer, -⟩ := closest y
    have sign := mirrored y
    rw [units]
    generalize (n : Int) * one = goal at *
    omega
  · intro y _ tie other
    obtain ⟨nearer, even⟩ := closest y
    have sign := mirrored y
    rw [units] at tie other
    rw [value, magnitude_ofParts bounded]
    generalize (n : Int) * one = goal at *
    by_cases same : unitsOf y.magnitude = unitsOf (unbounded (n * one) 1)
    · omega
    · exact even (by omega) same

end DynamicValues.Binary64
