import DynamicValues.Hash
import DynamicValues.Proofs.Slice
import Mathlib.Data.Int.Bitwise

/-!
The arithmetic of hashes. A round keeps the low 32 bits of a product with an odd number, so that what it does to the
low bits of its state can be undone: a difference in these bits is never lost, and one in the high bits is lost in the
next round.
-/

set_option autoImplicit false

namespace DynamicValues

namespace Word

theorem toInt_of_msb {w : Nat} {x : BitVec w} (negative : x.msb = true) : x.toInt = Int.negSucc (~~~x).toNat := by
  have bound := x.isLt
  rw [BitVec.toInt_eq_msb_cond, if_pos negative, BitVec.toNat_not, Int.negSucc_eq]
  omega

theorem bits_toInt_xor {w : Nat} (x y : BitVec w) : (x ^^^ y).toInt = Int.xor x.toInt y.toInt := by
  cases left : x.msb <;> cases right : y.msb
  · have both : (x ^^^ y).msb = false := by rw [BitVec.msb_xor, left, right]; rfl
    rw [BitVec.toInt_eq_toNat_of_msb both, BitVec.toInt_eq_toNat_of_msb left, BitVec.toInt_eq_toNat_of_msb right,
      BitVec.toNat_xor]
    rfl
  · have both : (x ^^^ y).msb = true := by rw [BitVec.msb_xor, left, right]; rfl
    rw [toInt_of_msb both, BitVec.toInt_eq_toNat_of_msb left, toInt_of_msb right, BitVec.not_xor_right,
      BitVec.toNat_xor]
    rfl
  · have both : (x ^^^ y).msb = true := by rw [BitVec.msb_xor, left, right]; rfl
    rw [toInt_of_msb both, toInt_of_msb left, BitVec.toInt_eq_toNat_of_msb right, BitVec.not_xor_left,
      BitVec.toNat_xor]
    rfl
  · have both : (x ^^^ y).msb = false := by rw [BitVec.msb_xor, left, right]; rfl
    have complements : x ^^^ y = ~~~x ^^^ ~~~y := by
      rw [← BitVec.not_xor_left, ← BitVec.not_xor_right, BitVec.not_not]
    rw [BitVec.toInt_eq_toNat_of_msb both, toInt_of_msb left, toInt_of_msb right, complements, BitVec.toNat_xor]
    rfl

/-- Exclusive or on words is that of two's complement without a bound on the bits. -/
theorem toInt_xor (a b : Int64) : (a ^^^ b).toInt = Int.xor a.toInt b.toInt := bits_toInt_xor a.toBitVec b.toBitVec

end Word

namespace Hash

/-- The low 32 bits of a word. -/
def tail (h : Int64) : UInt32 := h.toUInt64.toUInt32

@[simp] theorem tail_xor (a b : Int64) : tail (a ^^^ b) = tail a ^^^ tail b := by
  rw [tail, Int64.toUInt64_xor, UInt64.toUInt32_xor]
  rfl

@[simp] theorem tail_mul (a b : Int64) : tail (a * b) = tail a * tail b := by
  rw [tail, Int64.toUInt64_mul, UInt64.toUInt32_mul]
  rfl

theorem toNat_tail (h : Int64) : ((tail h).toNat : Int) = h.toInt % 0x100000000 := by
  have word : h.toInt = (h.toUInt64.toNat : Int).bmod (2 ^ 64) := BitVec.toInt_eq_toNat_bmod h.toBitVec
  rw [tail, UInt64.toNat_toUInt32, word, Int.bmod_def]
  split <;> omega

theorem tail_eq_iff {a b : Int64} : tail a = tail b ↔ a.toInt % 0x100000000 = b.toInt % 0x100000000 := by
  rw [← toNat_tail, ← toNat_tail, Int.natCast_inj, UInt32.toNat_inj]

/-- A mask leaves the low bits, as a number that is not negative. -/
theorem toInt_low (h : Int64) : (low h).toInt = (tail h).toNat := by
  have masked : (low h).toBitVec.toNat = (tail h).toNat := by
    rw [tail, UInt64.toNat_toUInt32]
    exact Nat.and_two_pow_sub_one_eq_mod _ 32
  have small : (tail h).toNat < 2 ^ 32 := UInt32.toNat_lt _
  rw [← Int64.toInt_toBitVec, BitVec.toInt_eq_toNat_bmod, masked]
  exact Int.bmod_eq_of_le (by omega) (by omega)

@[simp] theorem tail_low (h : Int64) : tail (low h) = tail h := by
  have masked := toNat_tail h
  rw [tail_eq_iff, toInt_low]
  omega

/-- What a round does to the low bits. -/
def round (x item : UInt32) : UInt32 := 1000003 * x ^^^ item

theorem tail_mix (h item : Int64) : tail (mix h item) = round (tail h) (tail item) := by
  rw [mix, tail_xor, tail_low, tail_mul, UInt32.mul_comm]
  rfl

/-- The high bits of a state have no bearing on the next one. -/
theorem mix_congr {h h' : Int64} (same : tail h = tail h') (item : Int64) : mix h item = mix h' item := by
  have products : low (h * 1000003) = low (h' * 1000003) := by
    rw [← Int64.toInt_inj, toInt_low, toInt_low, tail_mul, tail_mul, same]
  rw [mix, mix, products]

theorem round_injective (item : UInt32) : Function.Injective (round · item) := by
  intro x y same
  have products : 1000003 * x = 1000003 * y := (UInt32.xor_left_inj item).1 same
  have undone (z : UInt32) : 2021759595 * (1000003 * z) = z := by
    have inverse : (2021759595 * 1000003 : UInt32) = 1 := rfl
    rw [← UInt32.mul_assoc, inverse, UInt32.one_mul]
  rw [← undone x, products, undone y]

theorem foldl_round_injective (items : List UInt32) : Function.Injective fun x => items.foldl round x := by
  induction items with
  | nil => exact fun _ _ same => same
  | cons item items ih => exact fun x y same => round_injective item (ih same)

theorem tail_foldl (items : List Int64) (h : Int64) :
    tail (items.foldl mix h) = (items.map tail).foldl round (tail h) := by
  induction items generalizing h with
  | nil => rfl
  | cons item items ih => rw [List.foldl_cons, ih, tail_mix, List.map_cons, List.foldl_cons]

theorem tail_foldl_inj (items : List Int64) {h h' : Int64} :
    tail (items.foldl mix h) = tail (items.foldl mix h') ↔ tail h = tail h' := by
  rw [tail_foldl, tail_foldl]
  exact (foldl_round_injective _).eq_iff

theorem foldl_mix_congr {items : List Int64} (more : items ≠ []) {h h' : Int64} (same : tail h = tail h') :
    items.foldl mix h = items.foldl mix h' := by
  cases items with
  | nil => exact absurd rfl more
  | cons item items => rw [List.foldl_cons, List.foldl_cons, mix_congr same]

/-- Only the number that gives way and the one that takes its place become the same. -/
theorem remap_eq_remap {h h' : Int64} (same : remap h = remap h') (differ : h ≠ h') :
    remap h = -2 ∧ tail h ≠ tail h' := by
  unfold remap at same ⊢
  split at same
  · next first =>
    rw [if_pos first, first]
    split at same
    · next second => exact absurd (first.trans second.symm) differ
    · rw [← same]
      decide
  · next first =>
    rw [if_neg first]
    split at same
    · next second =>
      rw [same, second]
      decide
    · exact absurd same differ

section Exact

/-- One round on the integers. -/
def exactStep (len h item : Int) : Int := Int.xor (Int.xor (h * 1000003 % 0x100000000) item) len

/-- The hash of a sequence, computed on the integers in two's complement without a bound on the bits. -/
def exactSequence (items : List Int) (len : Int) : Int :=
  let h := items.foldl (exactStep len) 0x345678
  if h = -1 then -2 else h

theorem toInt_step (len h item : Int64) :
    (mix h item ^^^ len).toInt = exactStep len.toInt h.toInt item.toInt := by
  have product : ((tail (h * 1000003)).toNat : Int) = h.toInt * 1000003 % 0x100000000 := by
    have multiplier : (1000003 : Int64).toInt = 1000003 := rfl
    rw [toNat_tail, Int64.toInt_mul, multiplier, Int.bmod_def]
    split <;> omega
  rw [Word.toInt_xor, mix, Word.toInt_xor, toInt_low, product]
  rfl

theorem toInt_foldl_step (len : Int64) (items : List Int64) (h : Int64) :
    (items.foldl (fun h item => mix h item ^^^ len) h).toInt =
      (items.map Int64.toInt).foldl (exactStep len.toInt) h.toInt := by
  induction items generalizing h with
  | nil => rfl
  | cons item items ih => rw [List.foldl_cons, ih, toInt_step, List.map_cons, List.foldl_cons]

theorem toInt_remap (h : Int64) : (remap h).toInt = if h.toInt = -1 then -2 else h.toInt := by
  have sentinel : h = -1 ↔ h.toInt = -1 := Int64.toInt_inj.symm
  unfold remap
  split
  · next here => rw [if_pos (sentinel.1 here)]; rfl
  · next here => rw [if_neg (here ∘ sentinel.2)]

theorem toInt_sequence (items : List Int64) (len : Nat) :
    (sequence items len).toInt = exactSequence (items.map Int64.toInt) (Int64.ofNat len).toInt := by
  rw [sequence, toInt_remap, toInt_foldl_step]
  rfl

end Exact

section Collision

variable (before after : List Int64) {a b : Int64} (len : Nat)

/-- The state after the item `a`. The length is mixed in with each item, so it may as well be part of the item. -/
def stateAfter (before : List Int64) (a : Int64) (len : Nat) : Int64 :=
  mix ((before.map (· ^^^ Int64.ofNat len)).foldl mix 0x345678) (a ^^^ Int64.ofNat len)

theorem sequence_append_cons (a : Int64) :
    sequence (before ++ a :: after) len =
      remap ((after.map (· ^^^ Int64.ofNat len)).foldl mix (stateAfter before a len)) := by
  have joined (items : List Int64) (h : Int64) : items.foldl (fun h item => mix h item ^^^ Int64.ofNat len) h =
      (items.map (· ^^^ Int64.ofNat len)).foldl mix h := by
    rw [List.foldl_map]
    simp only [mix, Int64.xor_assoc]
  rw [sequence, joined, List.map_append, List.foldl_append]
  rfl

theorem stateAfter_inj : stateAfter before a len = stateAfter before b len ↔ a = b := by
  rw [stateAfter, stateAfter, mix, mix, Int64.xor_right_inj, Int64.xor_left_inj]

theorem tail_stateAfter_inj : tail (stateAfter before a len) = tail (stateAfter before b len) ↔ tail a = tail b := by
  rw [stateAfter, stateAfter, tail_mix, tail_mix, round, round, UInt32.xor_right_inj, tail_xor, tail_xor,
    UInt32.xor_left_inj]

variable {before after len}

/-- A difference in the low bits is still there at the end. -/
theorem sequence_ne_or_of_tail_ne (differ : tail a ≠ tail b) :
    sequence (before ++ a :: after) len ≠ sequence (before ++ b :: after) len ∨
      sequence (before ++ a :: after) len = -2 ∧ sequence (before ++ b :: after) len = -2 := by
  by_cases same : sequence (before ++ a :: after) len = sequence (before ++ b :: after) len
  · have apart := mt (tail_stateAfter_inj before len).1 differ
    rw [← tail_foldl_inj (after.map (· ^^^ Int64.ofNat len))] at apart
    have merged : sequence (before ++ a :: after) len = -2 := by
      rw [sequence_append_cons, sequence_append_cons] at same
      rw [sequence_append_cons]
      exact (remap_eq_remap same fun equal => apart (congrArg tail equal)).1
    exact .inr ⟨merged, same.symm.trans merged⟩
  · exact .inl same

theorem sequence_concat_ne (differ : a ≠ b) (alike : tail a = tail b) :
    sequence (before ++ [a]) len ≠ sequence (before ++ [b]) len := by
  intro same
  rw [sequence_append_cons, sequence_append_cons] at same
  have apart : stateAfter before a len ≠ stateAfter before b len := mt (stateAfter_inj before len).1 differ
  exact (remap_eq_remap same apart).2 ((tail_stateAfter_inj before len).2 alike)

theorem sequence_eq_of_tail_eq (more : after ≠ []) (alike : tail a = tail b) :
    sequence (before ++ a :: after) len = sequence (before ++ b :: after) len := by
  rw [sequence_append_cons, sequence_append_cons,
    foldl_mix_congr (mt List.map_eq_nil_iff.1 more) ((tail_stateAfter_inj before len).2 alike)]

end Collision

/-- The hash of a sequence is the recurrence on the integers, for every list of items and every length, which counts as
the word it is; the lengths of sequences in memory are words. If two sequences differ in one item, and there in the low
32 bits, then their hashes differ unless both are `-2`. If the items differ in the high bits only, then the hashes
differ for the last item, and for an earlier one they are the same. -/
theorem sequence_exact_and_collisions :
    (∀ (items : List Int64) (len : Nat),
      (sequence items len).toInt = exactSequence (items.map Int64.toInt) (Int64.ofNat len).toInt) ∧
    (∀ len : Nat, (len : Int) ≤ Int64.maxValue.toInt → (Int64.ofNat len).toInt = len) ∧
    ∀ (before after : List Int64) (a b : Int64) (len : Nat),
      (a.toInt % 0x100000000 ≠ b.toInt % 0x100000000 →
        sequence (before ++ a :: after) len ≠ sequence (before ++ b :: after) len ∨
          sequence (before ++ a :: after) len = -2 ∧ sequence (before ++ b :: after) len = -2) ∧
      (a ≠ b → a.toInt % 0x100000000 = b.toInt % 0x100000000 →
        (after = [] → sequence (before ++ a :: after) len ≠ sequence (before ++ b :: after) len) ∧
        (after ≠ [] → sequence (before ++ a :: after) len = sequence (before ++ b :: after) len)) := by
  refine ⟨toInt_sequence, fun len small => ?_, fun before after a b len => ⟨fun differ => ?_, fun differ alike => ?_⟩⟩
  · exact Word.toInt_ofNat (Int.lt_of_le_of_lt small (by decide))
  · exact sequence_ne_or_of_tail_ne (mt tail_eq_iff.1 differ)
  · have alike := tail_eq_iff.2 alike
    refine ⟨?_, fun more => sequence_eq_of_tail_eq more alike⟩
    rintro rfl
    exact sequence_concat_ne differ alike

/-- Single items that differ in the lowest bit have one hash, that of the number which is never a hash. Items that
differ in a high bit have one hash if another item follows, and different ones if none does. -/
theorem single_items_collide :
    (sequence [-2634387818] 1 = -2 ∧ sequence [-2634387817] 1 = -2) ∧
      sequence [7, 5] 2 = sequence [7 + 0x100000000, 5] 2 ∧ sequence [5, 7] 2 ≠ sequence [5, 7 + 0x100000000] 2 := by
  obtain ⟨-, -, collisions⟩ := sequence_exact_and_collisions
  have lowest := (collisions [] [] (-2634387818) (-2634387817) 1).1 (by decide)
  have earlier := ((collisions [] [5] 7 (7 + 0x100000000) 2).2 (by decide) (by decide)).2 (List.cons_ne_nil 5 [])
  have last := ((collisions [5] [] 7 (7 + 0x100000000) 2).2 (by decide) (by decide)).1 rfl
  exact ⟨lowest.resolve_left (by decide), earlier, last⟩

end Hash
end DynamicValues
