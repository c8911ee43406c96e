import DynamicValues.Proofs.Positions

/-!
Slices under guard. Lengths, bounds and positions are sizes, which are words without a sign; bounds are resolved and
positions walked in words with one. Here differences, quotients and changes from one to the other are guarded: they give
nothing where the result is out of range. Sums of words need no guard, for they stop at the last word or are refused
beyond it. For every length that is a word no guard is met, so that nothing wraps around without them.
-/

set_option autoImplicit false

namespace DynamicValues

namespace Size

/-- The least number above all sizes. -/
def limit : Int := 0x10000000000000000

/-- The size that stands for `n`, if there is one. -/
def ofInt? (n : Int) : Option Nat := if 0 ≤ n ∧ n < limit then some n.toNat else none

/-- The quotient rounded up. It is one more than the quotient rounded down unless nothing remains. -/
def divUp? (n size : Nat) : Option Nat :=
  if size = 0 then none
  else if 0 < n % size then ofInt? (n / size + 1)
  else some (n / size)

/-- The number of strides between two bounds. The size of a step is a size, since the least word has no negative. -/
def strides? (low high : Nat) (step : Int64) : Option Nat :=
  if high ≤ low then some 0
  else do
    let extent ← ofInt? (high - low)
    let stride ← ofInt? step.toInt.natAbs
    divUp? extent stride

variable {n size : Nat}

theorem ofInt?_of_nonneg {i : Int} (natural : 0 ≤ i) (small : i < limit) : ofInt? i = some i.toNat :=
  if_pos ⟨natural, small⟩

theorem ofInt?_natCast (small : (n : Int) < limit) : ofInt? n = some n :=
  ofInt?_of_nonneg (Int.natCast_nonneg n) small

/-- Any word that is not negative is a size. -/
theorem ofInt?_toInt {w : Int64} (natural : 0 ≤ w.toInt) : ofInt? w.toInt = some w.toInt.toNat :=
  ofInt?_of_nonneg natural (Int.lt_trans w.toInt_lt (by decide))

theorem mapM_toInt {is : List Int64} (natural : ∀ i ∈ is, 0 ≤ i.toInt) :
    is.mapM (fun i => ofInt? i.toInt) = some (is.map fun i => i.toInt.toNat) := by
  induction is with
  | nil => rfl
  | cons i is ih =>
    obtain ⟨here, later⟩ := List.forall_mem_cons.1 natural
    rw [List.mapM_cons, ofInt?_toInt here, ih later]
    rfl

/-- What remains fills less than one more stride, so one is added and no sum passes the limit. -/
theorem divUp?_eq (positive : 0 < size) (small : (n : Int) < limit) :
    divUp? n size = some ((n + size - 1) / size) := by
  have whole : n + size - 1 = size * (n / size) + (n % size + size - 1) := by
    have parts := Nat.div_add_mod n size
    omega
  have below := Nat.mod_lt n positive
  rw [divUp?, if_neg (Nat.ne_of_gt positive), whole, Nat.mul_add_div positive]
  split
  · next rest =>
    have one : (n % size + size - 1) / size = 1 := Nat.div_eq_of_lt_le (by omega) (by omega)
    have some : 0 < n := Nat.lt_of_lt_of_le rest (Nat.mod_le n size)
    have fits : n / size + 1 ≤ n := Nat.div_lt_self some (by omega)
    rw [one]
    exact ofInt?_natCast (Int.lt_of_le_of_lt (Int.ofNat_le.2 fits) small)
  · next full =>
    have none : (n % size + size - 1) / size = 0 := Nat.div_eq_of_lt (by omega)
    rw [none, Nat.add_zero]

theorem strides?_eq {low high : Nat} {step : Int64} (nonzero : step.toInt ≠ 0) (small : (high : Int) < limit) :
    strides? low high step = some ((high - low + step.toInt.natAbs - 1) / step.toInt.natAbs) := by
  have positive : 0 < step.toInt.natAbs := Int.natAbs_pos.2 nonzero
  have least : -Word.limit ≤ step.toInt := step.le_toInt
  have greatest : step.toInt < Word.limit := step.toInt_lt
  have range : Word.limit < limit := by decide
  unfold strides?
  split
  · next none => rw [Nat.sub_eq_zero_of_le none, Nat.zero_add, Nat.div_eq_of_lt (by omega)]
  · next some =>
    have extent : (high : Int) - low = (high - low : Nat) := by omega
    rw [extent, ofInt?_natCast (by omega), ofInt?_natCast (by omega)]
    exact divUp?_eq positive (by omega)

end Size

namespace Word

/-- The exact difference of two words, if it is a word. -/
def sub? (a b : Int64) : Option Int64 := ofInt? (a.toInt - b.toInt)

/-- The word between two others that is nearest to `w`, if they stand in their order. -/
def clamp? (low high w : Int64) : Option Int64 :=
  if low.toInt ≤ high.toInt then
    some (if w.toInt < low.toInt then low else if high.toInt < w.toInt then high else w)
  else none

theorem ofInt?_eq_some {n : Int} {w : Int64} (h : w.toInt = n) : ofInt? n = some w := h ▸ ofInt?_toInt w

theorem exists_clamp? {low high : Int64} (ordered : low.toInt ≤ high.toInt) (w : Int64) :
    ∃ c, clamp? low high w = some c ∧ c.toInt = max low.toInt (min w.toInt high.toInt) := by
  refine ⟨_, if_pos ordered, ?_⟩
  split
  · omega
  · split <;> omega

end Word

namespace Slice

/-- A bound resolved in words, then taken for a size. -/
def guardedBound? (bound : Option Int64) (len absent shift : Int64) : Option Nat :=
  match bound with
  | none => Size.ofInt? absent.toInt
  | some i => do
    let wrapped := if i.toInt < 0 then Word.addSaturating i len.toInt else i
    let resolved ← Word.clamp? 0 len (Word.addSaturating wrapped shift.toInt)
    Size.ofInt? resolved.toInt

def guardedIndices? (s : Slice) (len : Nat) : Option Indices := do
  let step := s.step.getD 1
  let len ← Word.ofInt? len
  if step = 0 then none
  else if 0 < step.toInt then
    return ⟨← guardedBound? s.start len 0 0, ← guardedBound? s.stop len len 0, step⟩
  else
    return ⟨← guardedBound? s.start len len 1, ← guardedBound? s.stop len 0 1, step⟩

theorem guardedBound?_eq (bound : Option Int64) {len absent shift : Nat} {l a k : Int64} (hl : l.toInt = len)
    (ha : a.toInt = absent) (hk : k.toInt = shift) :
    guardedBound? bound l a k = some (resolveBound bound len absent shift) := by
  cases bound with
  | none => rw [guardedBound?, Size.ofInt?_toInt (by omega), ha, Int.toNat_natCast, resolveBound]
  | some i =>
    have ordered : (0 : Int64).toInt ≤ l.toInt := hl ▸ Int.natCast_nonneg len
    simp only [guardedBound?, resolveBound, hl, hk]
    generalize Word.addSaturating _ (shift : Int) = moved
    obtain ⟨c, clamped, value⟩ := Word.exists_clamp? ordered moved
    have zero : (0 : Int64).toInt = 0 := rfl
    rw [clamped, Option.bind_eq_bind, Option.bind_some, Size.ofInt?_toInt (by omega)]
    exact congrArg some (by omega)

/-- No guard is met when a slice is resolved against a length that is a word. -/
theorem guardedIndices?_eq (s : Slice) {len : Nat} (small : (len : Int) < Word.limit) :
    s.guardedIndices? len = s.indices? len := by
  have word := Word.toInt_ofNat small
  have zero : (0 : Int64).toInt = (0 : Nat) := rfl
  have one : (1 : Int64).toInt = (1 : Nat) := rfl
  rw [guardedIndices?, indices?, Word.ofInt?_eq_some word]
  simp only [Option.bind_eq_bind, Option.bind_some, guardedBound?_eq _ word zero zero, guardedBound?_eq _ word word zero,
    guardedBound?_eq _ word word one, guardedBound?_eq _ word zero one]
  rfl

/-- The guard on the first length that is no word. -/
example : guardedIndices? ⟨none, none, none⟩ 0x8000000000000000 = none := by decide

end Slice

namespace Indices

def guardedWalk? (r : Indices) : Option Walk := do
  let start ← Word.ofInt? r.start
  let stop ← Word.ofInt? r.stop
  if 0 < r.step.toInt then return ⟨some start, stop, r.step⟩
  else return ⟨some (← Word.sub? start 1), stop, r.step⟩

/-- The first positions, at most `n` of them, each taken for a size. -/
def guardedFirst? (r : Indices) (n : Nat) : Option (List Nat) := do
  let walk ← r.guardedWalk?
  (walk.take n).mapM fun i => Size.ofInt? i.toInt

def guardedLength? (r : Indices) : Option Nat :=
  if 0 < r.step.toInt then Size.strides? r.start r.stop r.step else Size.strides? r.stop r.start r.step

namespace Bounded

variable {r : Indices} {len : Nat} (h : r.Bounded len)
include h

theorem guardedWalk?_eq : r.guardedWalk? = some r.walk := by
  have first := Word.toInt_ofNat h.start_lt
  have before := Word.toInt_ofNat_sub_one h.start_lt
  have last := Word.toInt_ofNat h.stop_lt
  have one : (1 : Int64).toInt = 1 := rfl
  simp only [guardedWalk?, walk, Word.sub?, Word.ofInt?_eq_some first, Word.ofInt?_eq_some last, first, one,
    Word.ofInt?_eq_some before, Option.bind_eq_bind, Option.bind_some]
  split <;> rfl

theorem guardedFirst?_eq (n : Nat) : r.guardedFirst? n = some (r.first n) := by
  rw [guardedFirst?, h.guardedWalk?_eq, first]
  exact Size.mapM_toInt fun i hi => h.nonneg_of_mem_take_walk hi

theorem guardedLength?_eq : r.guardedLength? = some r.length := by
  have range : Word.limit < Size.limit := by decide
  rw [guardedLength?, length]
  split
  · exact Size.strides?_eq h.step (Int.lt_trans h.stop_lt range)
  · exact Size.strides?_eq h.step (Int.lt_trans h.start_lt range)

end Bounded
end Indices

namespace Slice

theorem indices?_of_resolve {s : Slice} {len : Nat} {r : Indices} (h : s.resolve len = .ok r) :
    s.indices? len = some r := by
  unfold resolve at h
  split at h
  · next found => rw [found, Except.ok.inj h]
  · cases h

/-- A slice that moves is resolved against every length up to the largest word, to bounds up to that length. Its
positions lie below the length and go one way, strictly; the walk gives them however often it is asked, and nothing after
them; their number is the one in closed form. Sums that stop at the last word, or that are refused beyond it, do not show:
the bounds and the positions are those of integers without bounds. No other sum, no difference and no change between words
and sizes is out of range, whatever the step. -/
theorem resolve_safe_to_index (s : Slice) (len : Nat) (nonzero : s.step ≠ some 0)
    (small : (len : Int) ≤ Int64.maxValue.toInt) :
    ∃ r, s.resolve len = .ok r ∧ r.start ≤ len ∧ r.stop ≤ len ∧
      (∀ p ∈ r.positions, p < len) ∧
      (0 < s.stride → r.positions.Pairwise (· < ·)) ∧ (s.stride < 0 → r.positions.Pairwise (· > ·)) ∧
      (∀ n, r.first n = r.positions.take n) ∧
      r.positions.length = r.length ∧ (r.isEmpty = true ↔ r.positions = []) ∧
      r.ends = (s.origin len, s.goal len) ∧ s.Selects len (r.positions.map Int.ofNat) ∧
      s.guardedIndices? len = some r ∧ (∀ n, r.guardedFirst? n = some (r.first n)) ∧
      r.guardedLength? = some r.length := by
  obtain ⟨r, h⟩ := exists_resolves nonzero small
  have unmet : s.guardedIndices? len = some r :=
    (s.guardedIndices?_eq h.small).trans (indices?_of_resolve h.resolved)
  refine ⟨r, h.resolved, h.start, h.stop, fun p hp => h.lt_of_mem_positions hp, ?_, ?_, h.first_eq_take,
    h.length_positions, h.isEmpty_iff, h.ends_eq, h.selects, unmet, h.guardedFirst?_eq, h.guardedLength?_eq⟩
  · intro forward
    exact h.increasing_positions (h.stride_eq ▸ forward)
  · intro backward
    exact h.decreasing_positions (h.stride_eq ▸ backward)

/-- The longest length backwards by the least word, which has no negative: the last position, and no other. -/
theorem resolve_safe_least_step :
    ∃ r, (⟨none, none, some Int64.minValue⟩ : Slice).resolve 0x7fffffffffffffff = .ok r ∧
      r.positions = [0x7ffffffffffffffe] ∧ r.guardedFirst? 2 = some [0x7ffffffffffffffe] ∧
      r.guardedLength? = some 1 := by
  obtain ⟨r, resolved, -, -, -, -, -, taken, -, -, -, -, -, first, length⟩ :=
    resolve_safe_to_index ⟨none, none, some Int64.minValue⟩ 0x7fffffffffffffff (by decide) (by decide)
  cases resolved
  refine ⟨_, rfl, by decide, ?_, length⟩
  rw [first, taken]
  decide

end Slice

end DynamicValues
