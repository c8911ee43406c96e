import DynamicValues.Proofs.Equality
import DynamicValues.Proofs.Order
import Mathlib.Algebra.Order.Field.Power
import Mathlib.Data.Rat.Floor
import Mathlib.Tactic.Ring

/-!
The rational number that a finite double denotes. Units of the doubles are a fixed fraction of one, so
comparing places is comparing rationals, and a word is compared with a double exactly: neither is rounded,
and the words that stand for floors are those floors.
-/

set_option autoImplicit false

namespace DynamicValues

namespace Binary64

/-- The exponent of a double, as it is stored. -/
def exponent (x : Binary64) : ℕ := x.bits.toNat / 2 ^ 52 % 2 ^ 11

/-- The bits of the significand that are stored. -/
def fraction (x : Binary64) : ℕ := x.bits.toNat % 2 ^ 52

/-- The number that a finite double denotes: a sign, and a significand times a power of two. The significand
has a leading bit before the stored ones, unless the exponent is the lowest. -/
def toRat (x : Binary64) : ℚ :=
  (if x.bits.toNat < 2 ^ 63 then 1 else -1) *
    if x.exponent = 0 then (x.fraction : ℚ) * 2 ^ (-1074 : ℤ)
    else (2 ^ 52 + x.fraction : ℚ) * 2 ^ ((x.exponent : ℤ) - 1075)

theorem cast_one : (one : ℚ) = 2 ^ (1074 : ℤ) := by
  have shifted (n : ℕ) : ((1 <<< n : ℕ) : ℚ) = 2 ^ (n : ℤ) := by
    rw [Nat.shiftLeft_eq, Nat.one_mul, zpow_natCast]
    exact Nat.cast_pow 2 n
  exact shifted 1074

theorem cast_one_pos : (0 : ℚ) < one := by
  rw [cast_one]
  exact zpow_pos two_pos _

theorem magnitude_div_leadBit (x : Binary64) : x.magnitude / leadBit = x.exponent := by
  change x.bits.toNat % (2 ^ 52 * 2 ^ 11) / 2 ^ 52 = _
  rw [Nat.mod_mul_right_div_self]
  rfl

theorem magnitude_mod_leadBit (x : Binary64) : x.magnitude % leadBit = x.fraction := by
  change x.bits.toNat % (2 ^ 52 * 2 ^ 11) % 2 ^ 52 = _
  rw [Nat.mod_mul_right_mod]
  rfl

theorem toRat_mul_one (x : Binary64) : x.toRat * one = x.units := by
  have magnitude : (unitsOf x.magnitude : ℚ) =
      (if x.exponent = 0 then (x.fraction : ℚ) * 2 ^ (-1074 : ℤ)
        else (2 ^ 52 + x.fraction : ℚ) * 2 ^ ((x.exponent : ℤ) - 1075)) * one := by
    rw [unitsOf, magnitude_div_leadBit, magnitude_mod_leadBit, cast_one]
    split
    · rw [mul_assoc, ← zpow_add₀ two_ne_zero]
      norm_num
    · next normal =>
      have exponent : (x.exponent : ℤ) - 1075 + 1074 = ((x.exponent - 1 : ℕ) : ℤ) := by omega
      rw [mul_assoc, ← zpow_add₀ two_ne_zero, exponent, zpow_natCast, Nat.shiftLeft_eq, Nat.cast_mul]
      have lead : (leadBit : ℚ) = 2 ^ 52 := by norm_num [leadBit, Nat.shiftLeft_eq]
      rw [Nat.cast_add, lead, Nat.cast_pow, Nat.cast_ofNat]
  have sign : x.negative = true ↔ ¬x.bits.toNat < 2 ^ 63 := by
    rw [negative, decide_eq_true_iff, Nat.not_lt]
    rfl
  rw [toRat, mul_assoc, ← magnitude, units]
  by_cases negative : x.negative = true
  · rw [if_pos negative, if_neg (sign.1 negative)]
    push_cast
    ring
  · rw [if_neg negative, if_pos (by simpa [negative] using sign)]
    push_cast
    ring

theorem toRat_eq (x : Binary64) : x.toRat = x.units / one := by
  rw [eq_div_iff cast_one_pos.ne', toRat_mul_one]

theorem floor_eq (x : Binary64) : x.floor = ⌊x.toRat⌋ := by
  rw [toRat_eq, Rat.floor_intCast_div_natCast]
  rfl

/-- An integer and a double are compared in units as they are compared as rationals. -/
theorem compare_toRat (n : ℤ) (x : Binary64) : compare (n : ℚ) x.toRat = compare (n * one) x.units := by
  have below : (n : ℚ) < x.toRat ↔ n * one < x.units := by
    rw [toRat_eq, lt_div_iff₀ cast_one_pos]
    exact_mod_cast Iff.rfl
  have above : x.toRat < (n : ℚ) ↔ x.units < n * one := by
    rw [toRat_eq, div_lt_iff₀ cast_one_pos]
    exact_mod_cast Iff.rfl
  rcases lt_trichotomy (n : ℚ) x.toRat with less | same | more
  · rw [compare_lt_iff_lt.2 less, compare_lt_iff_lt.2 (below.1 less)]
  · have units : n * one = x.units := by
      rw [← Int.cast_inj (α := ℚ), ← toRat_mul_one, ← same]
      push_cast
      rfl
    rw [compare_eq_iff_eq.2 same, compare_eq_iff_eq.2 units]
  · rw [compare_gt_iff_gt.2 more, compare_gt_iff_gt.2 (above.1 more)]

theorem toRat_eq_intCast_iff {x : Binary64} {n : ℤ} : x.toRat = n ↔ x.units = n * one := by
  rw [toRat_eq, div_eq_iff cast_one_pos.ne']
  exact_mod_cast Iff.rfl

end Binary64

namespace Value

open Binary64 (one)

variable {a : Value} {n : Int64} {x : Binary64}

theorem cmp_float_of_word? (word : a.word? = some n) (number : x.isNaN = false) :
    a.cmp (.float x) = compare (n.toInt * one) x.units := by
  rw [cmp_of_number (number?_of_word? word) rfl, Number.units?, Number.units?, number]
  rfl

theorem beq_float_iff_of_word? (word : a.word? = some n) :
    (a == .float x) = true ↔ x.isNaN = false ∧ x.units = n.toInt * one := by
  rw [beq_iff_of_number (number?_of_word? word), ← Number.units?_float_eq_some_iff]
  simp only [number?, Option.some.injEq, exists_and_left, exists_eq_left', Number.units?]

theorem float_beq_iff_of_word? (word : a.word? = some n) :
    (Value.float x == a) = true ↔ x.isNaN = false ∧ x.units = n.toInt * one := by
  rw [beq_iff_of_number (x := .float x) rfl, ← Number.units?_float_eq_some_iff, number?_of_word? word]
  simp only [Option.some.injEq, Number.units?]
  constructor
  · rintro ⟨_, place, rfl, hx, hn⟩
    exact hx.trans hn.symm
  · intro hx
    exact ⟨_, _, rfl, hx, rfl⟩

/-- How two values compare, from either side. -/
structure Compares (a b : Value) (order : Ordering) (equal : Prop) : Prop where
  cmp : a.cmp b = order
  cmp_back : b.cmp a = order.swap
  beq : (a == b) = true ↔ equal
  beq_back : (b == a) = true ↔ equal

theorem compares_float_of_word? (word : a.word? = some n) {order : Ordering} {equal : Prop}
    (cmp : a.cmp (.float x) = order) (beq : x.isNaN = false ∧ x.units = n.toInt * one ↔ equal) :
    a.Compares (.float x) order equal where
  cmp := cmp
  cmp_back := by rw [cmp_swap a (.float x), cmp]
  beq := (beq_float_iff_of_word? word).trans beq
  beq_back := (float_beq_iff_of_word? word).trans beq

theorem compares_finite (word : a.word? = some n) (finite : x.isFinite = true) :
    a.Compares (.float x) (compare (n.toInt : ℚ) x.toRat) (x.toRat = n.toInt) := by
  have number := Binary64.not_isNaN_of_isFinite finite
  apply compares_float_of_word? word
  · rw [cmp_float_of_word? word number, Binary64.compare_toRat]
  · rw [Binary64.toRat_eq_intCast_iff, number]
    simp

theorem compares_nan (word : a.word? = some n) (nan : x.isNaN = true) :
    a.Compares (.float x) .lt False := by
  apply compares_float_of_word? word
  · rw [cmp_of_number (number?_of_word? word) rfl, Number.units?, Number.units?, nan]
    rfl
  · simp [nan]

/-- The units of an infinity are beyond those of all words. -/
theorem compares_infinite (word : a.word? = some n) (infinite : x.isInfinite = true) :
    a.Compares (.float x) (if x.negative then .gt else .lt) False := by
  have magnitude : x.magnitude = Binary64.infinite := by simpa [Binary64.isInfinite] using infinite
  have number : x.isNaN = false := by simp [Binary64.isNaN, magnitude]
  have room : Word.limit * one < Binary64.unitsOf Binary64.infinite := by decide +kernel
  have range := Number.word_mul_mem n
  have units : x.units = if x.negative then -(Binary64.unitsOf Binary64.infinite : ℤ)
      else Binary64.unitsOf Binary64.infinite := by
    rw [Binary64.units, magnitude]
  apply compares_float_of_word? word
  · rw [cmp_float_of_word? word number, units]
    split
    · exact compare_gt_iff_gt.2 (by omega)
    · exact compare_lt_iff_lt.2 (by omega)
  · rw [units, iff_false, not_and]
    intro _ same
    split at same <;> omega

end Value

namespace Number

variable {x : Binary64}

/-- The double is held against the range of the words before its floor is taken for a word. -/
theorem toInt_saturate_floor_eq (number : x.isNaN = false) (below : limit.le x = false)
    (above : x.lt lowest = false) : (Word.saturate x.floor).toInt = ⌊x.toRat⌋ := by
  rw [← Bool.not_eq_true, limit_le_iff number, not_le] at below
  rw [← Bool.not_eq_true, lt_lowest_iff number, not_lt] at above
  rw [toInt_saturate_floor above below, Binary64.floor_eq]

theorem toInt_saturate_floor_of_whole (whole : x.isWhole = true) (below : x.lt limit = true)
    (above : lowest.le x = true) : ((Word.saturate x.floor).toInt : ℚ) = x.toRat := by
  simp only [Binary64.isWhole, Bool.and_eq_true, beq_iff_eq] at whole
  have number := Binary64.not_isNaN_of_isFinite whole.1
  rw [toInt_saturate_floor ((lowest_le_iff number).1 above) ((lt_limit_iff number).1 below), eq_comm,
    Binary64.toRat_eq_intCast_iff]
  exact (Int.ediv_mul_cancel_of_emod_eq_zero whole.2).symm

end Number

/-- A word, or a truth value as zero or one, is compared with a double as the two numbers that they are. NaN
and infinity come after all words, minus infinity before them. The words that doubles are converted to on the
way are their floors, and the doubles themselves where these are whole. -/
theorem word_against_double {a : Value} {n : Int64} (word : a.word? = some n) (x : Binary64) :
    (x.isFinite = true → a.Compares (.float x) (compare (n.toInt : ℚ) x.toRat) (x.toRat = n.toInt)) ∧
    (x.isNaN = true ∨ x.isInfinite = true ∧ x.negative = false → a.Compares (.float x) .lt False) ∧
    (x.isInfinite = true ∧ x.negative = true → a.Compares (.float x) .gt False) ∧
    ((x.isWhole && Number.lowest.le x && x.lt Number.limit) = true →
      ((Word.saturate x.floor).toInt : ℚ) = x.toRat) ∧
    ((x.isNaN || Number.limit.le x) = false → x.lt Number.lowest = false →
      (Word.saturate x.floor).toInt = ⌊x.toRat⌋) := by
  refine ⟨Value.compares_finite word, ?_, ?_, ?_, ?_⟩
  · rintro (nan | ⟨infinite, positive⟩)
    · exact Value.compares_nan word nan
    · have beyond := Value.compares_infinite word infinite
      rwa [positive] at beyond
  · rintro ⟨infinite, negative⟩
    have beyond := Value.compares_infinite word infinite
    rwa [negative] at beyond
  · intro inRange
    simp only [Bool.and_eq_true] at inRange
    exact Number.toInt_saturate_floor_of_whole inRange.1.1 inRange.2 inRange.1.2
  · intro notAbove notBelow
    rw [Bool.or_eq_false_iff] at notAbove
    exact Number.toInt_saturate_floor_eq notAbove.1 notAbove.2 notBelow

namespace Landmark

/-- Two to the power of 53, next to which there is no odd double. -/
def even : Binary64 := ⟨0x4340000000000000⟩

def minusHalf : Binary64 := ⟨0xbfe0000000000000⟩

def minusInfinity : Binary64 := ⟨0xfff0000000000000⟩

theorem toRat_even : even.toRat = 9007199254740992 := by
  have units : even.units = 9007199254740992 * (Binary64.one : ℤ) := by decide +kernel
  exact_mod_cast Binary64.toRat_eq_intCast_iff.2 units

end Landmark

/-- The odd word after the even double is not rounded to it. -/
theorem words_against_landmarks :
    (Value.int 9007199254740993).Compares (.float Landmark.even) .gt False ∧
      (Value.bool true).Compares (.float .invalid) .lt False ∧
      (Value.int Int64.minValue).Compares (.float Landmark.minusInfinity) .gt False ∧
      ((Word.saturate Landmark.even.floor).toInt : ℚ) = 9007199254740992 ∧
      (Word.saturate Landmark.minusHalf.floor).toInt = ⌊Landmark.minusHalf.toRat⌋ := by
  obtain ⟨finite, -, -, whole, -⟩ :=
    word_against_double (a := .int 9007199254740993) rfl Landmark.even
  obtain ⟨-, nan, -, -, -⟩ := word_against_double (a := .bool true) rfl .invalid
  obtain ⟨-, -, infinite, -, -⟩ := word_against_double (a := .int Int64.minValue) rfl Landmark.minusInfinity
  obtain ⟨-, -, -, -, floor⟩ := word_against_double (a := .int 0) rfl Landmark.minusHalf
  rw [Landmark.toRat_even] at finite whole
  have compared := finite (by decide +kernel)
  have order : compare ((9007199254740993 : Int64).toInt : ℚ) 9007199254740992 = .gt := by
    have word : (9007199254740993 : Int64).toInt = 9007199254740993 := by decide
    rw [word, compare_gt_iff_gt]
    norm_num
  have apart : (9007199254740992 : ℚ) ≠ ((9007199254740993 : Int64).toInt : ℚ) :=
    (compare_gt_iff_gt.1 order).ne
  rw [order, eq_false apart] at compared
  exact ⟨compared, nan (.inl (by decide +kernel)), infinite (by decide +kernel), whole (by decide +kernel),
    floor (by decide +kernel) (by decide +kernel)⟩

end DynamicValues
