import DynamicValues.Collect
import DynamicValues.Proofs.Contents
import DynamicValues.Proofs.Slice
import Mathlib.Data.Rat.Floor

/-!
Progressions of words are those of the integers. The loop stops at the bound or at a sum that is no word; in both
cases the next integer is not short of the bound, so nothing is left out. How many numbers there are is a quotient,
rounded up, of differences that need not be words.
-/

set_option autoImplicit false

namespace DynamicValues

namespace Strides

variable {stop step i : Int} {is : List Int}

theorem eq_map_range (h : Strides stop step i is) : is = (List.range is.length).map fun k : Nat => i + k * step := by
  induction h with
  | done _ => rfl
  | @more i is _ _ ih =>
    rw [List.length_cons, List.range_succ_eq_map, List.map_cons, List.map_map]
    congr 1
    · simp
    · refine ih.trans (List.map_congr_left ?_)
      intro k _
      simp only [Function.comp_apply, Nat.succ_eq_add_one]
      push_cast
      ring

/-- The distance to the end has the direction of the steps as long as the end is ahead. -/
theorem short_iff (nonzero : step ≠ 0) : Short stop step i ↔ 0 < ((stop - i : Int) : ℚ) / (step : ℚ) := by
  have direction : (0 : ℚ) < (step : ℚ) ↔ 0 < step := Int.cast_pos
  rw [Short, div_pos_iff, direction, Int.cast_pos, Int.cast_lt_zero, Int.cast_lt_zero]
  split <;> omega

theorem length_eq_ceil (h : Strides stop step i is) (nonzero : step ≠ 0) :
    (is.length : Int) = max 0 ⌈((stop - i : Int) : ℚ) / (step : ℚ)⌉ := by
  induction h with
  | done there =>
    rw [short_iff nonzero, not_lt] at there
    rw [max_eq_left (Int.ceil_le.2 (by simpa using there))]
    rfl
  | @more i is short _ ih =>
    have once : ((stop - (i + step) : Int) : ℚ) / (step : ℚ) = ((stop - i : Int) : ℚ) / (step : ℚ) - 1 := by
      have : (step : ℚ) ≠ 0 := Int.cast_ne_zero.2 nonzero
      push_cast
      field_simp
      ring
    have present : 0 < ⌈((stop - i : Int) : ℚ) / (step : ℚ)⌉ := Int.ceil_pos.2 ((short_iff nonzero).1 short)
    rw [once, Int.ceil_sub_one] at ih
    rw [List.length_cons, Nat.cast_succ, ih]
    omega

end Strides

namespace Range

variable {r : Range} {i : Int64}

theorem reached_iff : r.reached i = true ↔ ¬Short r.stop.toInt r.step.toInt i.toInt := by
  unfold reached Short
  split <;> rw [decide_eq_true_iff] <;> omega

/-- What the loop adds to the numbers before. -/
theorem exists_strides_walk (r : Range) (moves : r.step ≠ 0) (i : Int64) (before : List Int64) :
    ∃ later, r.walk moves i before = before.reverse ++ later ∧
      Strides r.stop.toInt r.step.toInt i.toInt (later.map Int64.toInt) := by
  fun_induction walk r moves i before with
  | case1 i before reached => exact ⟨[], (List.append_nil _).symm, .done (reached_iff.1 reached)⟩
  | case2 i before short j next _ ih =>
    obtain ⟨later, eq, strides⟩ := ih
    rw [Word.toInt_of_add? next] at strides
    refine ⟨i :: later, ?_, .more (not_not.1 (mt reached_iff.2 short)) strides⟩
    rw [eq, List.reverse_cons, List.append_assoc, List.singleton_append]
  | case3 i before short next =>
    refine ⟨[i], List.reverse_cons, .more (not_not.1 (mt reached_iff.2 short)) (.done ?_)⟩
    have below : -Word.limit ≤ r.stop.toInt := r.stop.le_toInt
    exact not_short_of_overflow (by omega) r.stop.toInt_lt next

theorem strides_items (r : Range) (moves : r.step ≠ 0) :
    Strides r.stop.toInt r.step.toInt r.start.toInt ((r.items moves).map Int64.toInt) := by
  obtain ⟨later, eq, strides⟩ := r.exists_strides_walk moves r.start []
  rw [items, eq]
  exact strides

end Range

namespace Run

variable {r : Range}

theorem progression_of_ne_zero (moves : r.step ≠ 0) : progression r = .ok ((r.items moves).map .int) := dif_neg moves

theorem progression_of_zero (zero : r.step = 0) : progression r = .error .zeroRangeStep := dif_pos zero

/-- A new cursor has all its items left. -/
theorem exec_drain_addCursor (s : Store) (xs : List Value) :
    exec (drain s.cursors.size) (s.addCursor xs).2 =
      (.ok xs, (s.addCursor xs).2.skip s.cursors.size xs.length) := by
  have rest : ((s.addCursor xs).2.cursor s.cursors.size).rest = xs :=
    congrArg Cursor.rest (s.cursor_addCursor xs)
  rw [exec_drain, ← Cursor.length_rest, rest]

end Run

/-- A range holds the numbers from its start on by its step, as many as the distance to its bound divided by the
step, rounded up, in integers without bounds; all of them are words. They are the same as a list, as an iterator
and as a lazy range. A step of zero is refused whatever the bounds. -/
theorem range_exact_progression :
    (∀ r : Range, r.step ≠ 0 → ∃ (n : Nat) (items : List Int64),
      (n : Int) = max 0 ⌈((r.stop.toInt - r.start.toInt : Int) : ℚ) / (r.step.toInt : ℚ)⌉ ∧
      items.map Int64.toInt = (List.range n).map (fun k : Nat => r.start.toInt + k * r.step.toInt) ∧
      ∀ s : Store, exec (Run.range ⟨false⟩ r) s = (.ok (.list (items.map .int)), s) ∧
        ∃ i t, exec (Run.range ⟨true⟩ r) s = (.ok (.iter i), t) ∧ exec (Run.lazyRange r) s = (.ok (.iter i), t) ∧
          s.Unmoved t ∧ exec (Run.drain i) t = (.ok (items.map .int), t.skip i n)) ∧
    ∀ r : Range, r.step = 0 → Error.zeroRangeStep.category = .valueError ∧
      ∀ s : Store, exec (Run.lazyRange r) s = (.error .zeroRangeStep, s) ∧
        ∀ config, exec (Run.range config r) s = (.error .zeroRangeStep, s) := by
  constructor
  · intro r moves
    have strides := r.strides_items moves
    have values := Run.progression_of_ne_zero moves
    have count := strides.length_eq_ceil (Range.toInt_step_ne_zero moves)
    have numbers := strides.eq_map_range
    rw [List.length_map] at count numbers
    refine ⟨_, r.items moves, count, numbers, ?_⟩
    intro s
    have made : exec (Run.newIter ((r.items moves).map .int)) s =
        (.ok (.iter s.cursors.size), (s.addCursor ((r.items moves).map .int)).2) := rfl
    refine ⟨?_, s.cursors.size, (s.addCursor ((r.items moves).map .int)).2, ?_, ?_, s.unmoved_addCursor _, ?_⟩
    · rw [Run.range, values]
      rfl
    · rw [Run.range, values]
      exact made
    · rw [Run.lazyRange, values]
      exact made
    · rw [Run.exec_drain_addCursor, List.length_map]
  · intro r zero
    have refused := Run.progression_of_zero zero
    refine ⟨rfl, fun s => ⟨?_, fun config => ?_⟩⟩
    · rw [Run.lazyRange, refused]
      rfl
    · rw [Run.range, refused]
      rfl

/-- From the least word on by the greatest there are three numbers. The distance to the bound is no word, nor is the
number after the last. -/
theorem range_across_all_words :
    (∃ items : List Int64, items.map Int64.toInt = [-9223372036854775808, -1, 9223372036854775806] ∧
      exec (Run.range ⟨false⟩ ⟨Int64.minValue, Int64.maxValue, Int64.maxValue⟩) .empty =
        (.ok (.list (items.map .int)), .empty)) ∧
    exec (Run.range ⟨true⟩ ⟨Int64.minValue, Int64.maxValue, 0⟩) .empty = (.error .zeroRangeStep, .empty) := by
  obtain ⟨present, refused⟩ := range_exact_progression
  constructor
  · obtain ⟨n, items, count, numbers, ran⟩ :=
      present ⟨Int64.minValue, Int64.maxValue, Int64.maxValue⟩ (by decide)
    have three : ⌈((Int64.maxValue.toInt - Int64.minValue.toInt : Int) : ℚ) / (Int64.maxValue.toInt : ℚ)⌉ = 3 := by
      have greatest : Int64.maxValue.toInt = 9223372036854775807 := rfl
      have least : Int64.minValue.toInt = -9223372036854775808 := rfl
      rw [greatest, least, Int.ceil_eq_iff]
      norm_num
    obtain rfl : n = 3 := by
      rw [three] at count
      exact_mod_cast count
    exact ⟨items, numbers, (ran .empty).1⟩
  · obtain ⟨-, zero⟩ := refused ⟨Int64.minValue, Int64.maxValue, 0⟩ rfl
    exact (zero .empty).2 ⟨true⟩

end DynamicValues
