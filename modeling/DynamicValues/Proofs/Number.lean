import DynamicValues.Number
import DynamicValues.Proofs.Binary64
import Mathlib.Tactic.Linarith

/-!
Every number that is not NaN has a place on one line, counted in the units of the doubles. Numbers are
equal when they have the same place, and in order when their places are; a NaN has no place and comes
last.
-/

set_option autoImplicit false

namespace DynamicValues.Number

open Binary64 (one)

def units? : Number → Option Int
  | .int n => some (n.toInt * one)
  | .float x => if x.isNaN then none else some x.units

/-- The order of places, with none at the end. -/
def cmpPlace : Option Int → Option Int → Ordering
  | some u, some v => compare u v
  | some _, none => .lt
  | none, some _ => .gt
  | none, none => .eq

instance : Std.OrientedCmp cmpPlace where
  eq_swap {p q} := by
    rcases p with _ | u <;> rcases q with _ | v
    · rfl
    · rfl
    · rfl
    · exact Std.OrientedOrd.eq_swap

instance : Std.TransCmp cmpPlace where
  isLE_trans {p q r} hpq hqr := by
    rcases p with _ | u <;> rcases q with _ | v <;> rcases r with _ | w
    · rfl
    · cases hqr
    · rfl
    · cases hpq
    · rfl
    · cases hqr
    · rfl
    · exact Std.TransOrd.isLE_trans hpq hqr

theorem cmpPlace_eq_iff {p q : Option Int} : cmpPlace p q = .eq ↔ p = q := by
  rcases p with _ | u <;> rcases q with _ | v <;> simp [cmpPlace]

theorem one_pos : (0 : Int) < one := by decide

theorem isNaN_limit : limit.isNaN = false := by decide +kernel

theorem units_limit : limit.units = Word.limit * one := by decide +kernel

theorem isNaN_lowest : lowest.isNaN = false := by decide +kernel

theorem units_lowest : lowest.units = -(Word.limit * one) := by decide +kernel

theorem limit_le_iff {x : Binary64} (number : x.isNaN = false) :
    limit.le x = true ↔ Word.limit * one ≤ x.units := by
  simp [Binary64.le_iff, isNaN_limit, units_limit, number]

theorem lt_limit_iff {x : Binary64} (number : x.isNaN = false) :
    x.lt limit = true ↔ x.units < Word.limit * one := by
  simp [Binary64.lt_iff, isNaN_limit, units_limit, number]

theorem lowest_le_iff {x : Binary64} (number : x.isNaN = false) :
    lowest.le x = true ↔ -(Word.limit * one) ≤ x.units := by
  simp [Binary64.le_iff, isNaN_lowest, units_lowest, number]

theorem lt_lowest_iff {x : Binary64} (number : x.isNaN = false) :
    x.lt lowest = true ↔ x.units < -(Word.limit * one) := by
  simp [Binary64.lt_iff, isNaN_lowest, units_lowest, number]

/-- A double in the range of the words has a word for its floor. -/
theorem toInt_saturate_floor {x : Binary64} (lower : -(Word.limit * one) ≤ x.units)
    (upper : x.units < Word.limit * one) : (Word.saturate x.floor).toInt = x.floor :=
  Word.toInt_saturate_of_mem (Int.le_ediv_of_mul_le one_pos (by linarith))
    (Int.ediv_lt_of_lt_mul one_pos upper)

theorem floor_mul_le (x : Binary64) : x.floor * one ≤ x.units :=
  Int.ediv_mul_le _ one_pos.ne'

theorem lt_floor_add_one_mul (x : Binary64) : x.units < (x.floor + 1) * one :=
  Int.lt_ediv_add_one_mul_self _ one_pos

theorem isFinite_of_mem {x : Binary64} (lower : -(Word.limit * one) ≤ x.units)
    (upper : x.units < Word.limit * one) : x.isFinite = true := by
  have room : Word.limit * one < Binary64.unitsOf Binary64.infinite := by decide +kernel
  rw [Binary64.isFinite_iff]
  omega

theorem word_mul_mem (n : Int64) :
    -(Word.limit * one) ≤ n.toInt * one ∧ n.toInt * one < Word.limit * one := by
  have lower : -Word.limit * one ≤ n.toInt * one :=
    Int.mul_le_mul_of_nonneg_right n.le_toInt one_pos.le
  have upper : n.toInt * one < Word.limit * one := Int.mul_lt_mul_of_pos_right n.toInt_lt one_pos
  exact ⟨by linarith, upper⟩

theorem exactWord?_eq_some_iff {x : Binary64} {n : Int64} :
    exactWord? x = some n ↔ x.isNaN = false ∧ x.units = n.toInt * one := by
  unfold exactWord?
  constructor
  · intro h
    split at h
    · next inRange =>
      simp only [Bool.and_eq_true] at inRange
      obtain ⟨⟨whole, above⟩, below⟩ := inRange
      simp only [Binary64.isWhole, Bool.and_eq_true, beq_iff_eq] at whole
      have number := Binary64.not_isNaN_of_isFinite whole.1
      have floors := toInt_saturate_floor ((lowest_le_iff number).1 above) ((lt_limit_iff number).1 below)
      cases h
      rw [floors]
      exact ⟨number, (Int.ediv_mul_cancel_of_emod_eq_zero whole.2).symm⟩
    · cases h
  · rintro ⟨number, units⟩
    have range := word_mul_mem n
    rw [← units] at range
    have whole : x.isWhole = true := by
      rw [Binary64.isWhole, isFinite_of_mem range.1 range.2, units, Int.mul_emod_left]
      rfl
    have floor : x.floor = n.toInt := by
      rw [Binary64.floor, units, Int.mul_ediv_cancel _ one_pos.ne']
    have word : Word.saturate x.floor = n := by
      rw [← Int64.toInt_inj, toInt_saturate_floor range.1 range.2, floor]
    simp [whole, (lowest_le_iff number).2 range.1, (lt_limit_iff number).2 range.2, word]

theorem cmpWordFloat_eq (n : Int64) (x : Binary64) :
    cmpWordFloat n x = cmpPlace (units? (.int n)) (units? (.float x)) := by
  have range := word_mul_mem n
  unfold cmpWordFloat
  cases number : x.isNaN with
  | true => simp [units?, cmpPlace, number]
  | false =>
    simp only [units?, number, cmpPlace, Bool.false_or, Bool.false_eq_true, if_false]
    split
    · next above =>
      have := (limit_le_iff number).1 above
      exact (compare_lt_iff_lt.2 (by omega)).symm
    · next notAbove =>
      have upper : x.units < Word.limit * one := by
        rw [limit_le_iff number] at notAbove
        omega
      split
      · next below =>
        have := (lt_lowest_iff number).1 below
        exact (compare_gt_iff_gt.2 (by omega)).symm
      · next notBelow =>
        have lower : -(Word.limit * one) ≤ x.units := by
          rw [lt_lowest_iff number] at notBelow
          omega
        rw [toInt_saturate_floor lower upper]
        have atLeast := floor_mul_le x
        have under := lt_floor_add_one_mul x
        rcases Int.lt_trichotomy n.toInt x.floor with less | same | more
        · have := Int.mul_le_mul_of_nonneg_right (Int.add_one_le_iff.2 less) one_pos.le
          have := one_pos
          rw [compare_lt_iff_lt.2 less, compare_lt_iff_lt.2 (by linarith)]
        · rw [compare_eq_iff_eq.2 same, same]
          rcases Int.lt_or_eq_of_le atLeast with strict | exact
          · rw [if_pos strict, compare_lt_iff_lt.2 strict]
          · rw [if_neg (by omega), compare_eq_iff_eq.2 exact]
        · have := Int.mul_le_mul_of_nonneg_right (Int.add_one_le_iff.2 more) one_pos.le
          rw [compare_gt_iff_gt.2 more, compare_gt_iff_gt.2 (by linarith)]

theorem cmpFloat_eq (x y : Binary64) :
    cmpFloat x y = cmpPlace (units? (.float x)) (units? (.float y)) := by
  cases hx : x.isNaN <;> cases hy : y.isNaN <;> simp [cmpFloat, units?, cmpPlace, hx, hy]

theorem compare_mul_one (m n : Int) : compare (m * one) (n * one) = compare m n := by
  rcases Int.lt_trichotomy m n with less | same | more
  · rw [compare_lt_iff_lt.2 less, compare_lt_iff_lt.2 (Int.mul_lt_mul_of_pos_right less one_pos)]
  · rw [same, compare_eq_iff_eq.2 rfl, compare_eq_iff_eq.2 rfl]
  · rw [compare_gt_iff_gt.2 more, compare_gt_iff_gt.2 (Int.mul_lt_mul_of_pos_right more one_pos)]

theorem cmp_eq_cmpPlace (a b : Number) : a.cmp b = cmpPlace a.units? b.units? := by
  rcases a with m | x <;> rcases b with n | y
  · exact (compare_mul_one _ _).symm
  · exact cmpWordFloat_eq m y
  · rw [cmp, cmpWordFloat_eq]
    exact Std.OrientedCmp.eq_swap.symm
  · exact cmpFloat_eq x y

theorem units?_float_eq_some_iff {x : Binary64} {u : Int} :
    units? (.float x) = some u ↔ x.isNaN = false ∧ x.units = u := by
  cases h : x.isNaN <;> simp [units?, h]

theorem beq_iff {a b : Number} : a.beq b = true ↔ ∃ u, a.units? = some u ∧ b.units? = some u := by
  rcases a with m | x <;> rcases b with n | y
  · simp only [beq, units?, beq_iff_eq, Option.some.injEq, exists_eq_left', ← Int64.toInt_inj]
    exact ⟨fun h => by rw [h], fun h => (Int.eq_of_mul_eq_mul_right one_pos.ne' h).symm⟩
  · rw [beq, beq_iff_eq, exactWord?_eq_some_iff, ← units?_float_eq_some_iff]
    exact ⟨fun h => ⟨_, rfl, h⟩, fun ⟨u, hm, hy⟩ => hy.trans hm.symm⟩
  · rw [beq, beq_iff_eq, exactWord?_eq_some_iff, ← units?_float_eq_some_iff]
    exact ⟨fun h => ⟨_, h, rfl⟩, fun ⟨u, hx, hn⟩ => hx.trans hn.symm⟩
  · simp only [beq, Binary64.beq_iff, units?_float_eq_some_iff]
    constructor
    · rintro ⟨hx, hy, same⟩
      exact ⟨x.units, ⟨hx, rfl⟩, hy, same.symm⟩
    · rintro ⟨u, ⟨hx, rfl⟩, hy, same⟩
      exact ⟨hx, hy, same.symm⟩

end DynamicValues.Number
