import DynamicValues.Proofs.Slice
import Mathlib.Data.List.Nodup

/-!
The positions of a resolved slice. They lie below the length and go one way, so that none comes twice; their
number is the one that is computed from the bounds alone.
-/

set_option autoImplicit false

namespace DynamicValues

instance (stop step i : Int) : Decidable (Short stop step i) :=
  inferInstanceAs (Decidable (if 0 < step then i < stop else stop < i))

namespace Strides

/-- One step of a division that is rounded up. A step that passes the end leaves nothing, as one that comes to
it exactly. -/
theorem ceil_step {extent size : Nat} (some : 0 < extent) (positive : 0 < size) :
    (extent - size + size - 1) / size + 1 = (extent + size - 1) / size := by
  have once : extent + size - 1 = extent - 1 + size := by omega
  rw [once, Nat.add_div_right _ positive]
  rcases Nat.le_total size extent with inside | past
  · rw [Nat.sub_add_cancel inside]
  · rw [Nat.sub_eq_zero_of_le past, Nat.zero_add, Nat.div_eq_of_lt (by omega), Nat.div_eq_of_lt (by omega)]

variable {stop step i j : Int} {is : List Int}

theorem eq_or_short_of_mem (h : Strides stop step i is) (hj : j ∈ is) : j = i ∨ Short j step i := by
  induction h with
  | done _ => cases hj
  | more _ _ ih =>
    rcases List.mem_cons.1 hj with here | later
    · exact .inl here
    · have onward := ih later
      unfold Short at onward ⊢
      split at onward <;> split <;> omega

/-- Each of the integers comes before the ones that follow it, in the direction of the steps. -/
theorem pairwise_short (h : Strides stop step i is) (nonzero : step ≠ 0) : is.Pairwise fun j k => Short k step j := by
  induction h with
  | done _ => exact .nil
  | more _ rest ih =>
    refine .cons ?_ ih
    intro k hk
    have onward := rest.eq_or_short_of_mem hk
    unfold Short at onward ⊢
    split at onward <;> split <;> omega

theorem nodup (h : Strides stop step i is) (nonzero : step ≠ 0) : is.Nodup := by
  apply (h.pairwise_short nonzero).imp
  rintro j k short rfl
  unfold Short at short
  split at short <;> omega

/-- The number of steps is the distance to the end divided by their size, rounded up. -/
theorem length_eq (h : Strides stop step i is) (nonzero : step ≠ 0) :
    is.length = ((if 0 < step then stop - i else i - stop).toNat + step.natAbs - 1) / step.natAbs := by
  have size : 0 < step.natAbs := Int.natAbs_pos.2 nonzero
  induction h with
  | @done i there =>
    have none : (if 0 < step then stop - i else i - stop).toNat = 0 := by
      unfold Short at there
      split at there <;> split <;> omega
    rw [none, List.length_nil, Nat.zero_add, Nat.div_eq_of_lt (by omega)]
  | @more i is short rest ih =>
    have some : 0 < (if 0 < step then stop - i else i - stop).toNat := by
      unfold Short at short
      split at short <;> split <;> omega
    have left : (if 0 < step then stop - (i + step) else i + step - stop).toNat =
        (if 0 < step then stop - i else i - stop).toNat - step.natAbs := by
      split <;> omega
    rw [List.length_cons, ih, left, ceil_step some size]

end Strides

/-- A walk that may take fewer steps gives the first of the same positions. -/
theorem Walk.take_take (w : Walk) (m n : Nat) : (w.take m).take n = w.take (min n m) := by
  induction m generalizing w n with
  | zero => rw [Nat.min_zero, Walk.take, List.take_nil]
  | succ m ih =>
    cases n with
    | zero => rw [Nat.zero_min, List.take_zero, Walk.take]
    | succ n =>
      rw [Nat.succ_min_succ, Walk.take, Walk.take]
      cases w.next? with
      | none => exact List.take_nil
      | some moved => exact congrArg (moved.1 :: ·) (ih moved.2 n)

namespace Indices

/-- Bounds up to a length that is a word, and a step to walk by. -/
structure Bounded (r : Indices) (len : Nat) : Prop where
  step : r.step.toInt ≠ 0
  start : r.start ≤ len
  stop : r.stop ≤ len
  small : (len : Int) < Word.limit

namespace Bounded

variable {r : Indices} {len p : Nat} (h : r.Bounded len)
include h

theorem start_lt : (r.start : Int) < Word.limit := Int.lt_of_le_of_lt (Int.ofNat_le.2 h.start) h.small

theorem stop_lt : (r.stop : Int) < Word.limit := Int.lt_of_le_of_lt (Int.ofNat_le.2 h.stop) h.small

theorem strides : Strides r.ends.2 r.step.toInt r.ends.1 (r.positions.map Int.ofNat) :=
  r.strides_positions h.step h.start_lt h.stop_lt

theorem nodup_positions : r.positions.Nodup := (h.strides.nodup h.step).of_map Int.ofNat

theorem pairwise_positions : r.positions.Pairwise fun p q : Nat => Short q r.step.toInt p :=
  List.pairwise_map.1 (h.strides.pairwise_short h.step)

theorem increasing_positions (forward : 0 < r.step.toInt) : r.positions.Pairwise (· < ·) := by
  apply h.pairwise_positions.imp
  intro p q short
  rw [Short, if_pos forward] at short
  exact Int.ofNat_lt.1 short

theorem decreasing_positions (backward : r.step.toInt < 0) : r.positions.Pairwise (· > ·) := by
  apply h.pairwise_positions.imp
  intro p q short
  rw [Short, if_neg (Int.lt_asymm backward)] at short
  exact Int.ofNat_lt.1 short

/-- However often the walk is asked, it gives the positions in their order and then nothing more. -/
theorem take_walk (n : Nat) : r.walk.take n = (r.walk.take (max r.start r.stop)).take n := by
  rw [Walk.take_take]
  rcases Nat.le_total n (max r.start r.stop) with inside | past
  · rw [Nat.min_eq_left inside]
  · rw [Nat.min_eq_right past]
    have all := r.strides_walk h.step h.start_lt h.stop_lt (Nat.le_refl _)
    have more := r.strides_walk h.step h.start_lt h.stop_lt past
    exact (List.map_inj_right fun _ _ => Int64.toInt_inj.1).1 (more.unique all)

theorem nonneg_of_mem_take_walk {i : Int64} {n : Nat} (hi : i ∈ r.walk.take n) : 0 ≤ i.toInt := by
  rw [h.take_walk] at hi
  exact r.nonneg_of_mem_walk h.step h.start_lt h.stop_lt i (List.mem_of_mem_take hi)

theorem first_eq_take (n : Nat) : r.first n = r.positions.take n := by
  rw [positions, first, first, ← List.map_take, ← h.take_walk]

theorem positions_of_unit (unit : r.step = 1) : r.positions = List.range' r.start (r.stop - r.start) :=
  Indices.positions_of_unit unit h.start_lt h.stop_lt

theorem lt_of_mem_positions (hp : p ∈ r.positions) : p < len := by
  have mem : (p : Int) ∈ r.positions.map Int.ofNat := List.mem_map_of_mem hp
  have start := h.start
  have stop := h.stop
  have short := h.strides.short_of_mem mem
  have onward := h.strides.eq_or_short_of_mem mem
  by_cases forward : 0 < r.step.toInt
  · simp only [Short, ends, forward, if_true] at short
    omega
  · simp only [Short, ends, forward, if_false] at onward
    omega

theorem length_positions : r.positions.length = r.length := by
  have count := h.strides.length_eq h.step
  rw [List.length_map] at count
  rw [count, length]
  unfold ends
  split
  · next forward =>
    have extent : ((r.stop : Int) - r.start).toNat = r.stop - r.start := by omega
    rw [extent]
  · next backward =>
    have extent : ((r.start : Int) - 1 - (r.stop - 1)).toNat = r.start - r.stop := by omega
    rw [extent]

theorem isEmpty_iff : r.isEmpty = true ↔ r.positions = [] := by
  rw [isEmpty, beq_iff_eq, ← h.length_positions, List.length_eq_zero_iff]

end Bounded
end Indices

namespace Slice

/-- The slice is resolved against the length, to the ends that it stands for. -/
structure Resolves (s : Slice) (len : Nat) (r : Indices) : Prop extends r.Bounded len where
  resolved : s.resolve len = .ok r
  stride_eq : r.step.toInt = s.stride
  ends_eq : r.ends = (s.origin len, s.goal len)

variable {s : Slice} {len : Nat} {r : Indices}

theorem exists_resolves (nonzero : s.step ≠ some 0) (small : (len : Int) ≤ Int64.maxValue.toInt) :
    ∃ r, s.Resolves len r := by
  have small : (len : Int) < Word.limit := Int.lt_of_le_of_lt small (by decide)
  obtain ⟨r, resolved, step, start, stop, ends⟩ := resolve_eq nonzero small
  exact ⟨r, ⟨step ▸ stride_ne_zero nonzero, start, stop, small⟩, resolved, step, ends⟩

theorem Resolves.selects (h : s.Resolves len r) : s.Selects len (r.positions.map Int.ofNat) := by
  have walk := h.strides
  rwa [h.ends_eq, h.stride_eq] at walk

theorem Resolves.step_eq_one_iff (h : s.Resolves len r) : r.step = 1 ↔ s.stride = 1 := by
  rw [← h.stride_eq, ← Int64.toInt_inj]
  rfl

end Slice
end DynamicValues
