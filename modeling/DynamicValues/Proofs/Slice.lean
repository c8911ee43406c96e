import DynamicValues.Sequence

/-!
The positions of a slice, in integers without bounds. A slice stands for two ends and a stride: bounds are
wrapped once and clamped, then the integers from the one end by the stride are taken as long as they have
not come to the other. The words that are computed with, whose sums stop at the largest word or are refused
beyond it, come to the same positions for every length that is a word.
-/

set_option autoImplicit false

namespace DynamicValues

/-- An integer that has not come to the end. -/
def Short (stop step i : Int) : Prop := if 0 < step then i < stop else stop < i

/-- A sum that is no word is past every end that is one, or that a walk backwards has before its last word. -/
theorem not_short_of_overflow {stop : Int} {i step : Int64} (below : -Word.limit - 1 ≤ stop) (above : stop < Word.limit)
    (out : Word.add? i step = none) : ¬Short stop step.toInt (i.toInt + step.toInt) := by
  have lower : -Word.limit ≤ i.toInt := i.le_toInt
  have upper : i.toInt < Word.limit := i.toInt_lt
  have sum := Word.ofInt?_eq_none.1 out
  unfold Short
  split <;> omega

/-- The integers from one on by equal steps, as long as they are short of the end. -/
inductive Strides (stop step : Int) : Int → List Int → Prop where
  | done {i : Int} (there : ¬Short stop step i) : Strides stop step i []
  | more {i : Int} {is : List Int} (short : Short stop step i) (rest : Strides stop step (i + step) is) :
      Strides stop step i (i :: is)

namespace Strides

variable {stop step i : Int} {is js : List Int}

theorem unique (hi : Strides stop step i is) (hj : Strides stop step i js) : is = js := by
  induction hi generalizing js with
  | done there =>
    cases hj with
    | done _ => rfl
    | more short _ => exact absurd short there
  | more short _ ih =>
    cases hj with
    | done there => exact absurd short there
    | more _ rest => rw [ih rest]

theorem short_of_mem (h : Strides stop step i is) {j : Int} (hj : j ∈ is) : Short stop step j := by
  induction h with
  | done _ => cases hj
  | more short _ ih =>
    rcases List.mem_cons.1 hj with rfl | tail
    · exact short
    · exact ih tail

theorem le_of_mem (h : Strides stop step i is) (forward : 0 < step) {j : Int} (hj : j ∈ is) : i ≤ j := by
  induction h with
  | done _ => cases hj
  | more _ _ ih =>
    rcases List.mem_cons.1 hj with rfl | tail
    · exact Int.le_refl _
    · have := ih tail
      omega

/-- By steps of one, every integer up to the end. -/
theorem range' (first n : Nat) : Strides (first + n) 1 first ((List.range' first n).map Int.ofNat) := by
  induction n generalizing first with
  | zero => exact .done (by simp [Short])
  | succ n ih =>
    have rest := ih (first + 1)
    have goal : ((first + 1 : Nat) + n : Int) = first + (n + 1 : Nat) := by omega
    rw [goal] at rest
    exact .more (by rw [Short, if_pos Int.one_pos]; omega) rest

end Strides

namespace Walk

/-- The end of a walk, which a walk backwards does not reach either. -/
def stop (w : Walk) : Int := if 0 < w.step.toInt then w.bound.toInt else w.bound.toInt - 1

theorem inside_iff (w : Walk) (i : Int64) : w.inside i = true ↔ Short w.stop w.step.toInt i.toInt := by
  unfold inside Short stop
  split
  · exact decide_eq_true_iff
  · rw [decide_eq_true_iff]
    omega

/-- A walk cannot take more steps than there are integers up to its end. -/
def Enough (w : Walk) (i : Int64) (rounds : Nat) : Prop :=
  if 0 < w.step.toInt then w.bound.toInt - i.toInt ≤ rounds else i.toInt + 1 - w.bound.toInt ≤ rounds

theorem not_short_of_enough {w : Walk} {i : Int64} (enough : w.Enough i 0) :
    ¬Short w.stop w.step.toInt i.toInt := by
  unfold Enough at enough
  unfold Short stop
  split at enough
  · next forward =>
    rw [if_pos forward, if_pos forward]
    omega
  · next backward =>
    rw [if_neg backward, if_neg backward]
    omega

theorem Enough.step {w : Walk} {i j : Int64} {rounds : Nat} (enough : w.Enough i (rounds + 1))
    (nonzero : w.step.toInt ≠ 0) (moved : j.toInt = i.toInt + w.step.toInt) :
    Enough ⟨some j, w.bound, w.step⟩ j rounds := by
  unfold Enough at enough ⊢
  dsimp only
  split at enough
  · next forward =>
    rw [if_pos forward]
    omega
  · next backward =>
    rw [if_neg backward]
    omega

theorem take_of_cursor_eq_none {w : Walk} (gone : w.cursor = none) (rounds : Nat) : w.take rounds = [] := by
  cases rounds with
  | zero => rfl
  | succ rounds => simp [take, next?, gone]

theorem not_short_of_add?_eq_none {w : Walk} {i : Int64} (out : Word.add? i w.step = none) :
    ¬Short w.stop w.step.toInt (i.toInt + w.step.toInt) := by
  have above : w.bound.toInt < Word.limit := w.bound.toInt_lt
  have below : -Word.limit ≤ w.bound.toInt := w.bound.le_toInt
  refine not_short_of_overflow ?_ ?_ out <;> unfold stop <;> split <;> omega

theorem strides_take (w : Walk) {i : Int64} (step : w.step.toInt ≠ 0) (rounds : Nat)
    (cursor : w.cursor = some i) (enough : w.Enough i rounds) :
    Strides w.stop w.step.toInt i.toInt ((w.take rounds).map Int64.toInt) := by
  induction rounds generalizing w i with
  | zero => exact .done (not_short_of_enough enough)
  | succ rounds ih =>
    by_cases inside : w.inside i = true
    · have short := (w.inside_iff i).1 inside
      simp only [take, next?, cursor, inside, if_true, List.map_cons]
      refine .more short ?_
      cases sum : Word.add? i w.step with
      | none =>
        rw [take_of_cursor_eq_none rfl]
        exact .done (not_short_of_add?_eq_none sum)
      | some j =>
        have moved := Word.toInt_of_add? sum
        rw [← moved]
        exact ih ⟨some j, w.bound, w.step⟩ step rfl (enough.step step moved)
    · have there := mt (w.inside_iff i).2 inside
      simp only [take, next?, cursor, inside, if_false, List.map_nil, Bool.false_eq_true]
      exact .done there

end Walk

namespace Word

theorem toInt_ofNat {n : Nat} (h : (n : Int) < limit) : (Int64.ofNat n).toInt = n := by
  unfold limit at h
  exact Int64.toInt_ofNat_of_lt (by omega)

theorem toInt_ofNat_sub_one {n : Nat} (h : (n : Int) < limit) : (Int64.ofNat n - 1).toInt = n - 1 := by
  have one : (1 : Int64).toInt = 1 := rfl
  rw [Int64.toInt_sub, toInt_ofNat h, one]
  unfold limit at h
  exact Int.bmod_eq_of_le (by omega) (by omega)

end Word

namespace Indices

/-- The first position, and the end before which the positions lie. -/
def ends (r : Indices) : Int × Int :=
  if 0 < r.step.toInt then (r.start, r.stop) else (r.start - 1, r.stop - 1)

/-- The walk of words is one through the integers, once it may take as many steps as there are positions. -/
theorem strides_walk {r : Indices} {rounds : Nat} (step : r.step.toInt ≠ 0) (start : (r.start : Int) < Word.limit)
    (stop : (r.stop : Int) < Word.limit) (enough : max r.start r.stop ≤ rounds) :
    Strides r.ends.2 r.step.toInt r.ends.1 ((r.walk.take rounds).map Int64.toInt) := by
  unfold walk ends
  split
  · next forward =>
    have strides := Walk.strides_take ⟨some (Int64.ofNat r.start), Int64.ofNat r.stop, r.step⟩ step rounds rfl
    simp only [Walk.Enough, Walk.stop, forward, if_true, Word.toInt_ofNat start, Word.toInt_ofNat stop]
      at strides
    exact strides (by omega)
  · next backward =>
    have strides := Walk.strides_take ⟨some (Int64.ofNat r.start - 1), Int64.ofNat r.stop, r.step⟩ step rounds rfl
    simp only [Walk.Enough, Walk.stop, backward, if_false, Word.toInt_ofNat_sub_one start,
      Word.toInt_ofNat stop] at strides
    exact strides (by omega)

/-- A walk between bounds that are not negative does not step below zero. -/
theorem nonneg_of_mem_walk {r : Indices} (step : r.step.toInt ≠ 0) (start : (r.start : Int) < Word.limit)
    (stop : (r.stop : Int) < Word.limit) : ∀ i ∈ r.walk.take (max r.start r.stop), 0 ≤ i.toInt := by
  have strides := strides_walk step start stop (Nat.le_refl _)
  rw [← List.forall_mem_map]
  intro j hj
  have short := strides.short_of_mem hj
  by_cases forward : 0 < r.step.toInt
  · have onward := strides.le_of_mem forward hj
    simp only [ends, forward, if_true] at onward
    omega
  · simp only [Short, ends, forward, if_false] at short
    omega

theorem strides_positions {r : Indices} (step : r.step.toInt ≠ 0) (start : (r.start : Int) < Word.limit)
    (stop : (r.stop : Int) < Word.limit) :
    Strides r.ends.2 r.step.toInt r.ends.1 (r.positions.map Int.ofNat) := by
  have natural := nonneg_of_mem_walk step start stop
  have same : r.positions.map Int.ofNat = (r.walk.take (max r.start r.stop)).map Int64.toInt := by
    rw [positions, first, List.map_map]
    exact List.map_congr_left fun j hj => Int.toNat_of_nonneg (natural j hj)
  rw [same]
  exact strides_walk step start stop (Nat.le_refl _)

theorem positions_of_unit {r : Indices} (unit : r.step = 1) (start : (r.start : Int) < Word.limit)
    (stop : (r.stop : Int) < Word.limit) : r.positions = List.range' r.start (r.stop - r.start) := by
  have strides := r.strides_positions (by rw [unit]; decide) start stop
  have ends : r.ends = (↑r.start, ↑r.stop) := by simp [Indices.ends, unit]
  have whole : Strides r.stop 1 r.start ((List.range' r.start (r.stop - r.start)).map Int.ofNat) := by
    rcases Nat.le_total r.start r.stop with forward | backward
    · have range := Strides.range' r.start (r.stop - r.start)
      have goal : (r.start + (r.stop - r.start : Nat) : Int) = r.stop := by omega
      rwa [goal] at range
    · rw [Nat.sub_eq_zero_of_le backward]
      exact .done (by simpa [Short] using backward)
  rw [ends, unit] at strides
  exact (List.map_inj_right fun _ _ => Int.ofNat.inj).1 (strides.unique whole)

end Indices

namespace Slice

/-- A bound that is wrapped once if it is negative and then clamped: to the positions and the one after
them for a walk forwards, to the positions and the one before them for a walk backwards. -/
def clamp (len step bound : Int) : Int :=
  let wrapped := if bound < 0 then bound + len else bound
  if 0 < step then max 0 (min wrapped len) else max (-1) (min wrapped (len - 1))

def stride (s : Slice) : Int := s.step.elim 1 Int64.toInt

/-- The integer from which a slice selects. -/
def origin (s : Slice) (len : Int) : Int :=
  s.start.elim (if 0 < s.stride then 0 else len - 1) fun i => clamp len s.stride i.toInt

/-- The integer before which a slice stops. -/
def goal (s : Slice) (len : Int) : Int :=
  s.stop.elim (if 0 < s.stride then len else -1) fun i => clamp len s.stride i.toInt

/-- The positions that a slice selects from so many items. -/
def Selects (s : Slice) (len : Int) (is : List Int) : Prop :=
  Strides (s.goal len) s.stride (s.origin len) is

variable {len : Nat}

theorem resolveBound_le (bound : Option Int64) {absent shift : Nat} (h : absent ≤ len) :
    resolveBound bound len absent shift ≤ len := by
  cases bound with
  | none => exact h
  | some i => exact Nat.min_le_right _ _

/-- The saturating sums do not show: what they cut off lies outside the length. -/
theorem resolveBound_some (i : Int64) (absent shift : Nat) (small : (len : Int) < Word.limit) :
    (resolveBound (some i) len absent shift : Int) =
      max 0 (min ((if i.toInt < 0 then i.toInt + len else i.toInt) + shift) len) := by
  have lower : -Word.limit ≤ i.toInt := i.le_toInt
  have upper : i.toInt < Word.limit := i.toInt_lt
  unfold resolveBound Word.addSaturating
  dsimp only
  split
  · rw [Word.toInt_saturate, Word.toInt_saturate_of_mem (by omega) (by omega)]
    omega
  · rw [Word.toInt_saturate]
    omega

theorem stride_eq (s : Slice) : (s.step.getD 1).toInt = s.stride := by
  cases h : s.step <;> simp [stride, h]

/-- Forwards, a bound is resolved to the end that it stands for. -/
theorem resolveBound_forward (bound : Option Int64) {absent : Nat} {step : Int} (forward : 0 < step)
    (small : (len : Int) < Word.limit) :
    (resolveBound bound len absent 0 : Int) = bound.elim (absent : Int) fun i => clamp len step i.toInt := by
  cases bound with
  | none => rfl
  | some i =>
    rw [resolveBound_some i absent 0 small]
    simp only [clamp, Option.elim, forward, if_true]
    omega

/-- Backwards, a bound is resolved to one more than the end that it stands for. -/
theorem resolveBound_backward (bound : Option Int64) {absent : Nat} {step : Int} (backward : ¬0 < step)
    (small : (len : Int) < Word.limit) :
    (resolveBound bound len absent 1 : Int) - 1 =
      bound.elim (absent - 1 : Int) fun i => clamp len step i.toInt := by
  cases bound with
  | none => rfl
  | some i =>
    rw [resolveBound_some i absent 1 small]
    simp only [clamp, Option.elim, backward, if_false]
    omega

theorem getD_step_ne_zero {s : Slice} (nonzero : s.step ≠ some 0) : s.step.getD 1 ≠ 0 := by
  cases h : s.step with
  | none => decide
  | some n => simpa [h] using nonzero

theorem resolve_eq {s : Slice} (nonzero : s.step ≠ some 0) (small : (len : Int) < Word.limit) :
    ∃ r, s.resolve len = .ok r ∧ r.step.toInt = s.stride ∧ r.start ≤ len ∧ r.stop ≤ len ∧
      r.ends = (s.origin len, s.goal len) := by
  have word := getD_step_ne_zero nonzero
  by_cases forward : 0 < s.stride
  · refine ⟨⟨resolveBound s.start len 0 0, resolveBound s.stop len len 0, s.step.getD 1⟩, ?_, s.stride_eq,
      resolveBound_le _ (by omega), resolveBound_le _ (by omega), ?_⟩
    · simp [resolve, indices?, word, stride_eq, forward]
    · simp only [Indices.ends, stride_eq, forward, if_true, origin, goal,
        resolveBound_forward _ forward small]
      rfl
  · refine ⟨⟨resolveBound s.start len len 1, resolveBound s.stop len 0 1, s.step.getD 1⟩, ?_, s.stride_eq,
      resolveBound_le _ (by omega), resolveBound_le _ (by omega), ?_⟩
    · simp [resolve, indices?, word, stride_eq, forward]
    · simp only [Indices.ends, stride_eq, forward, if_false, origin, goal,
        resolveBound_backward _ forward small]
      rfl

theorem stride_ne_zero {s : Slice} (nonzero : s.step ≠ some 0) : s.stride ≠ 0 := by
  unfold stride
  cases h : s.step with
  | none => decide
  | some n =>
    intro zero
    exact nonzero (h.trans (congrArg some (Int64.toInt_inj.1 zero)))

/-- A slice selects the positions of its walk through the integers, in their order and no others, for every
length up to the largest word; one of step zero is refused. -/
theorem resolve_selects :
    (∀ (s : Slice) (len : Nat), s.step ≠ some 0 → (len : Int) ≤ Int64.maxValue.toInt →
      ∃ r, s.resolve len = .ok r ∧ ∀ is : List Int, s.Selects len is ↔ is = r.positions.map Int.ofNat) ∧
    ∀ (s : Slice) (len : Nat), s.step = some 0 →
      ∃ e, s.resolve len = .error e ∧ e.category = .valueError := by
  constructor
  · intro s len nonzero small
    have small : (len : Int) < Word.limit := Int.lt_of_le_of_lt small (by decide)
    obtain ⟨r, resolved, step, start, stop, ends⟩ := resolve_eq nonzero small
    have strides : s.Selects len (r.positions.map Int.ofNat) := by
      have walk := r.strides_positions (step ▸ stride_ne_zero nonzero) (by omega) (by omega)
      rwa [ends, step] at walk
    refine ⟨r, resolved, fun is => ⟨fun selected => selected.unique strides, ?_⟩⟩
    rintro rfl
    exact strides
  · intro s len zero
    exact ⟨.zeroStep, by simp [resolve, indices?, zero], rfl⟩

/-- Backwards by two from the end of five items down to the least word. -/
theorem selects_backwards :
    (⟨none, some Int64.minValue, some (-2)⟩ : Slice).Selects 5 [4, 2, 0] := by
  obtain ⟨r, resolved, selects⟩ :=
    resolve_selects.1 ⟨none, some Int64.minValue, some (-2)⟩ 5 (by decide) (by decide)
  have indices : r = ⟨5, 0, -2⟩ := by
    cases resolved
    decide
  refine (selects [4, 2, 0]).2 ?_
  rw [indices]
  decide

end Slice

namespace Sequence

variable {α : Type}

theorem pick_range' (xs : List α) (first n : Nat) :
    pick xs (List.range' first n) = (xs.drop first).take n := by
  rw [pick_eq_filterMap]
  induction n generalizing first with
  | zero => simp
  | succ n ih =>
    rw [List.range'_succ]
    cases h : xs[first]? with
    | none =>
      have past := List.getElem?_eq_none_iff.1 h
      rw [List.filterMap_cons_none h, ih, List.drop_eq_nil_of_le past,
        List.drop_eq_nil_of_le (Nat.le_succ_of_le past), List.take_nil, List.take_nil]
    | some x =>
      obtain ⟨inside, rfl⟩ := List.getElem?_eq_some_iff.1 h
      rw [List.filterMap_cons_some h, ih, List.drop_eq_getElem_cons inside, List.take_succ_cons]

/-- Without a step, a slice is a window of the items. -/
theorem slice_unit (xs : List α) (start stop : Option Int64) (small : (xs.length : Int) < Word.limit) :
    slice xs ⟨start, stop, none⟩ =
      .ok ((xs.take (Slice.window start stop xs.length).2).drop (Slice.window start stop xs.length).1) := by
  have lower : Slice.resolveBound start xs.length 0 0 ≤ xs.length := Slice.resolveBound_le start (Nat.zero_le _)
  have upper : Slice.resolveBound stop xs.length xs.length 0 ≤ xs.length :=
    Slice.resolveBound_le stop (Nat.le_refl _)
  have resolved : Slice.resolve ⟨start, stop, none⟩ xs.length = .ok
      ⟨Slice.resolveBound start xs.length 0 0, Slice.resolveBound stop xs.length xs.length 0, 1⟩ := rfl
  rw [slice, resolved, List.drop_take]
  refine congrArg Except.ok ?_
  rw [Indices.positions_of_unit rfl (by dsimp only; omega) (by dsimp only; omega), pick_range']
  rfl

end Sequence

end DynamicValues
