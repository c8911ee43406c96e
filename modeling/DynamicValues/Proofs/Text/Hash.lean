import DynamicValues.Proofs.Mixing
import Mathlib.Data.Nat.ModEq

/-!
The hash of a text. Its state never leaves the 32 bits of the polynomial, so that it is never negative, and each round
can be undone. The first character enters the first round twice. It is recovered bit by bit, since all that is added to
one of its bits comes from lower ones.
-/

set_option autoImplicit false

namespace DynamicValues.Hash

/-- The polynomial of the characters, modulo the words of 32 bits. The first character is also its seed. -/
def polynomial : List Char → UInt32
  | [] => 0
  | c :: cs => (c :: cs).foldl (fun x d => 1000003 * x ^^^ d.val) (c.val <<< 7)

theorem polynomial_cons (c : Char) (cs : List Char) :
    polynomial (c :: cs) = (cs.map Char.val).foldl round (round (c.val <<< 7) c.val) := by
  rw [List.foldl_map]
  rfl

section Narrow

/-- A word that is the number of its low bits. -/
def Narrow (h : Int64) : Prop := h.toInt = (tail h).toNat

theorem narrow_low (h : Int64) : Narrow (low h) := by rw [Narrow, toInt_low, tail_low]

theorem Narrow.xor {a b : Int64} (ha : Narrow a) (hb : Narrow b) : Narrow (a ^^^ b) := by
  rw [Narrow, Word.toInt_xor, ha, hb, tail_xor, UInt32.toNat_xor]
  rfl

theorem toInt_char (c : Char) : (char c).toInt = c.val.toNat := by
  have small : c.toNat < 2 ^ 32 := UInt32.toNat_lt c.val
  exact Word.toInt_ofNat (by rw [Word.limit]; omega)

theorem tail_char (c : Char) : tail (char c) = c.val := by
  have small : c.val.toNat < 2 ^ 32 := UInt32.toNat_lt c.val
  have low := toNat_tail (char c)
  rw [toInt_char] at low
  rw [← UInt32.toNat_inj]
  omega

theorem narrow_char (c : Char) : Narrow (char c) := by rw [Narrow, toInt_char, tail_char]

theorem tail_char_shift (c : Char) : tail (char c <<< 7) = c.val <<< 7 := by
  have shifted : (char c <<< 7).toUInt64 = (char c).toUInt64 <<< 7 := rfl
  rw [tail, shifted, UInt64.toUInt32_shiftLeft _ _ (by decide), ← tail, tail_char]
  rfl

theorem narrow_foldl (cs : List Char) {h : Int64} (narrow : Narrow h) :
    Narrow (cs.foldl (fun h d => mix h (char d)) h) := by
  induction cs generalizing h with
  | nil => exact narrow
  | cons c cs ih => exact ih ((narrow_low _).xor (narrow_char c))

theorem tail_foldl_char (cs : List Char) (h : Int64) :
    tail (cs.foldl (fun h d => mix h (char d)) h) = (cs.map Char.val).foldl round (tail h) := by
  have chars : tail ∘ char = Char.val := funext tail_char
  rw [← List.foldl_map, tail_foldl, List.map_map, chars]

end Narrow

/-- The exclusive or of a number with an even multiple of it determines the number, from the lowest bit up. -/
theorem mod_eq_of_xor_even_mul {e : Nat} (even : 2 ∣ e) {a b n : Nat}
    (same : (e * a ^^^ a) % 2 ^ n = (e * b ^^^ b) % 2 ^ n) : a % 2 ^ n = b % 2 ^ n := by
  induction n with
  | zero => rw [Nat.pow_zero, Nat.mod_one, Nat.mod_one]
  | succ n ih =>
    have lower : a % 2 ^ n = b % 2 ^ n := ih (Nat.ModEq.of_dvd (Nat.pow_dvd_pow 2 (Nat.le_succ n)) same)
    obtain ⟨k, rfl⟩ := even
    have products : 2 * k * a % 2 ^ (n + 1) = 2 * k * b % 2 ^ (n + 1) := by
      have doubled : k * (2 * a) ≡ k * (2 * b) [MOD 2 * 2 ^ n] := (Nat.ModEq.mul_left' 2 lower).mul_left k
      rw [Nat.pow_succ', Nat.mul_comm 2 k, Nat.mul_assoc, Nat.mul_assoc]
      exact doubled
    rw [Nat.xor_mod_two_pow, Nat.xor_mod_two_pow, products] at same
    exact Nat.xor_right_inj.1 same

/-- The first round, in which the seed is a multiple of the item, can be undone as well. -/
theorem first_round_injective : Function.Injective fun x : UInt32 => round (x <<< 7) x := by
  intro x y same
  have number (z : UInt32) : (round (z <<< 7) z).toNat = (128000384 * z.toNat ^^^ z.toNat) % 2 ^ 32 := by
    have small : z.toNat < 2 ^ 32 := UInt32.toNat_lt z
    have product : 1000003 * (z.toNat <<< 7 % 2 ^ 32) % 2 ^ 32 = 128000384 * z.toNat % 2 ^ 32 := by
      rw [Nat.shiftLeft_eq]
      omega
    rw [Nat.xor_mod_two_pow, ← product, Nat.mod_eq_of_lt small, round, UInt32.toNat_xor, UInt32.toNat_mul,
      UInt32.toNat_shiftLeft]
    rfl
  have numbers : (128000384 * x.toNat ^^^ x.toNat) % 2 ^ 32 = (128000384 * y.toNat ^^^ y.toNat) % 2 ^ 32 := by
    rw [← number, ← number]
    exact congrArg UInt32.toNat same
  have equal := mod_eq_of_xor_even_mul (by decide) numbers
  rwa [Nat.mod_eq_of_lt (UInt32.toNat_lt x), Nat.mod_eq_of_lt (UInt32.toNat_lt y), UInt32.toNat_inj] at equal

theorem polynomial_ne (before after : List Char) {a b : Char} (differ : a ≠ b) :
    polynomial (before ++ a :: after) ≠ polynomial (before ++ b :: after) := by
  intro same
  refine differ (Char.ext ?_)
  cases before with
  | nil =>
    rw [List.nil_append, List.nil_append, polynomial_cons, polynomial_cons] at same
    exact first_round_injective (foldl_round_injective _ same)
  | cons c before =>
    simp only [List.cons_append, polynomial_cons, List.map_append, List.foldl_append, List.map_cons,
      List.foldl_cons] at same
    exact (UInt32.xor_right_inj _).1 (foldl_round_injective _ same)

/-- The state that is left at the end, before the length is mixed in. -/
theorem toInt_rounds (c : Char) (cs : List Char) :
    ((c :: cs).foldl (fun h d => mix h (char d)) (low (char c <<< 7))).toInt = (polynomial (c :: cs)).toNat := by
  rw [narrow_foldl (c :: cs) (narrow_low _), tail_foldl_char, tail_low, tail_char_shift, polynomial_cons]
  rfl

section Length

variable {c : Char} {cs : List Char} (small : ((c :: cs).length : Int) ≤ Int64.maxValue.toInt)
include small

theorem toInt_rounds_xor_length :
    ((c :: cs).foldl (fun h d => mix h (char d)) (low (char c <<< 7)) ^^^ Int64.ofNat (c :: cs).length).toInt =
      ((polynomial (c :: cs)).toNat ^^^ (c :: cs).length : Nat) := by
  rw [Word.toInt_xor, toInt_rounds, Word.toInt_ofNat (Int.lt_of_le_of_lt small (by decide))]
  rfl

/-- No state is the number that gives way, since that one is negative. -/
theorem text_eq_rounds :
    text (c :: cs) = (c :: cs).foldl (fun h d => mix h (char d)) (low (char c <<< 7)) ^^^
      Int64.ofNat (c :: cs).length := by
  refine if_neg fun sentinel => ?_
  have positive := toInt_rounds_xor_length small
  rw [List.length_cons, sentinel] at positive
  have negative : (-1 : Int64).toInt = -1 := rfl
  omega

end Length

theorem toInt_text {s : List Char} (present : s ≠ []) (small : (s.length : Int) ≤ Int64.maxValue.toInt) :
    (text s).toInt = ((polynomial s).toNat ^^^ s.length : Nat) := by
  obtain ⟨c, cs, rfl⟩ := List.exists_cons_of_ne_nil present
  rw [text_eq_rounds small, toInt_rounds_xor_length small]

/-- The hash of a text that is not empty is its polynomial, with the length mixed in. It is not negative, so that
nothing has to give way. Texts that differ in one character have different hashes. The length of a text is a word, as
that of every text in memory. -/
theorem text_is_polynomial :
    (∀ (c : Char) (cs : List Char), ((c :: cs).length : Int) ≤ Int64.maxValue.toInt →
      (text (c :: cs)).toInt = ((polynomial (c :: cs)).toNat ^^^ (c :: cs).length : Nat) ∧
      0 ≤ (text (c :: cs)).toInt ∧
      text (c :: cs) = (c :: cs).foldl (fun h d => mix h (char d)) (low (char c <<< 7)) ^^^
        Int64.ofNat (c :: cs).length) ∧
    ∀ (before after : List Char) (a b : Char), ((before ++ a :: after).length : Int) ≤ Int64.maxValue.toInt → a ≠ b →
      text (before ++ a :: after) ≠ text (before ++ b :: after) := by
  constructor
  · intro c cs small
    have value := toInt_text (List.cons_ne_nil c cs) small
    refine ⟨value, ?_, text_eq_rounds small⟩
    rw [value]
    exact Int.natCast_nonneg _
  · intro before after a b small differ same
    have value (d : Char) : (text (before ++ d :: after)).toInt =
        ((polynomial (before ++ d :: after)).toNat ^^^ (before.length + (after.length + 1)) : Nat) := by
      have present : before ++ d :: after ≠ [] := List.append_ne_nil_of_right_ne_nil _ (List.cons_ne_nil _ _)
      rw [List.length_append, List.length_cons] at small
      rw [toInt_text present (by rwa [List.length_append, List.length_cons]), List.length_append, List.length_cons]
    rw [← Int64.toInt_inj, value, value, Int.natCast_inj, Nat.xor_left_inj, UInt32.toNat_inj] at same
    exact polynomial_ne before after differ same

/-- A text whose first character, which counts twice, is exchanged. -/
theorem first_character_exchanged :
    0 ≤ (text ['a', 'é']).toInt ∧ (text ['a', 'é']).toInt = ((polynomial ['a', 'é']).toNat ^^^ 2 : Nat) ∧
      text ['a', 'é'] ≠ text ['😀', 'é'] := by
  have arithmetic := text_is_polynomial.1 'a' ['é'] (by decide)
  have differ := text_is_polynomial.2 [] ['é'] 'a' '😀' (by decide) (by decide)
  exact ⟨arithmetic.2.1, arithmetic.1, differ⟩

end DynamicValues.Hash
