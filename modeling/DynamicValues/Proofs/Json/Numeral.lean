import DynamicValues.Proofs.Decimal
import DynamicValues.Proofs.Json.Grammar

/-!
Numbers as JSON. The text of an integer is read as that integer, and the text of a finite double as that
double, in every layout.
-/

set_option autoImplicit false

namespace DynamicValues

namespace Layout

theorem digits_ne_nil (n : Nat) : digits n ≠ [] := Nat.toDigits_ne_nil

theorem isDigit_of_mem_digits {n : Nat} {c : Char} (mem : c ∈ digits n) : c.isDigit = true :=
  Nat.isDigit_of_mem_toDigits (by decide) (by decide) mem

theorem ofDigitChars_digits (n : Nat) : Nat.ofDigitChars 10 (digits n) 0 = n :=
  Nat.ofDigitChars_ten_toDigits

/-- Only zero is written with a leading zero. -/
theorem head?_digits_ne {n : Nat} (positive : n ≠ 0) : (digits n).head? ≠ some '0' := by
  induction n using Nat.strongRecOn with
  | ind n ih =>
    by_cases small : n < 10
    · have digit : ∀ k < 10, k ≠ 0 → [Nat.digitChar k].head? ≠ some '0' := by decide
      rw [digits, Nat.toDigits_of_lt_base small]
      exact digit n small positive
    · have shorter : digits n = digits (n / 10) ++ [Nat.digitChar (n % 10)] :=
        Nat.toDigits_of_base_le (by decide) (Nat.le_of_not_lt small)
      rw [shorter, List.head?_append_of_ne_nil _ (digits_ne_nil _)]
      exact ih (n / 10) (by omega) (by omega)

end Layout

namespace Json

open Layout

theorem isDigit_of_mem_replicate {k : Nat} {c : Char} (mem : c ∈ List.replicate k '0') :
    c.isDigit = true := by
  obtain rfl := List.eq_of_mem_replicate mem
  rfl

namespace Numeral

/-- The number that stands for an integer. -/
def ofInt (n : Int) : Numeral := ⟨n < 0, digits n.natAbs, [], none⟩

theorem valid_ofInt (n : Int) : (ofInt n).Valid := by
  refine ⟨digits_ne_nil _, fun c => isDigit_of_mem_digits, fun zero => ?_, nofun, nofun⟩
  by_cases positive : n.natAbs = 0
  · simp [ofInt, positive, digits]
  · exact absurd zero (head?_digits_ne positive)

theorem text_ofInt (n : Int) : (ofInt n).text = Layout.integer n := by
  by_cases below : n < 0 <;> simp [text, Layout.integer, ofInt, below]

theorem coefficient_ofInt (n : Int) : (ofInt n).coefficient = n.natAbs := by
  simp [coefficient, ofInt, ofDigitChars_digits]

theorem integer_ofInt (n : Int) : (ofInt n).integer = n := by
  rw [integer, coefficient_ofInt, ofInt]
  by_cases below : n < 0
  · rw [if_pos (decide_eq_true below)]
    omega
  · rw [if_neg (mt of_decide_eq_true below)]
    omega

theorem isInteger_ofInt {n : Int} (lower : -Word.limit ≤ n) (upper : n < 2 * Word.limit) :
    (ofInt n).isInteger = true := by
  have nonzero : ¬((ofInt n).negative = true ∧ n.natAbs = 0) := by
    rintro ⟨sign, zero⟩
    have below : n < 0 := of_decide_eq_true sign
    omega
  rw [isInteger, coefficient_ofInt, integer_ofInt]
  exact decide_eq_true ⟨rfl, rfl, nonzero, lower, upper⟩

end Numeral

/-- An integer of 64 bits is read back from its text. -/
theorem scalar_integer {n : Int} (lower : -Word.limit ≤ n) (upper : n < 2 * Word.limit) :
    Scalar (integer n) (.integer n) := by
  rw [← Numeral.text_ofInt]
  apply Scalar.number (Numeral.valid_ofInt n)
  rw [Numeral.host?, if_pos (Numeral.isInteger_ofInt lower upper), Numeral.integer_ofInt]

/-- A text that is read, after a sign or without one, as the double nearest to a decimal. -/
def Reads (body : List Char) (d : Decimal) : Prop :=
  ∀ negative : Bool, ∃ n : Numeral, n.Valid ∧ n.text = (if negative then ['-'] else []) ++ body ∧
    n.isInteger = false ∧ n.double = .ofDecimal negative d.coefficient d.exponent

/-- A number with a fraction or an exponent, whose digits are those of a decimal and `k` zeros. -/
theorem reads_text {n : Numeral} (valid : n.Valid) (unsigned : n.negative = false)
    (more : n.fraction ≠ [] ∨ n.exponent ≠ none) {d : Decimal} (k : Nat)
    (coefficient : n.coefficient = d.coefficient * 10 ^ k) (scale : n.scale + k = d.exponent) :
    Reads n.text d := by
  intro negative
  refine ⟨{ n with negative }, ⟨valid.nonempty, valid.whole, valid.leading, valid.fraction, valid.exponent⟩,
    ?_, ?_, ?_⟩
  · simp [Numeral.text, unsigned]
  · rcases more with more | more <;> simp [Numeral.isInteger, more]
  · have value : Binary64.ofDecimal negative n.coefficient n.scale =
        .ofDecimal negative d.coefficient d.exponent := by
      rw [Decimal.ofDecimal_eq, Decimal.ofDecimal_eq, coefficient, Decimal.magnitude_mul_pow, scale]
    exact value

namespace Numeral

/-- The digits of `c` after the point and `k` zeros. -/
def small (c k : Nat) : Numeral := ⟨false, ['0'], List.replicate k '0' ++ digits c, none⟩

theorem valid_small (c k : Nat) : (small c k).Valid := by
  refine ⟨nofun, by simp [small], fun _ => rfl, fun d mem => ?_, nofun⟩
  rcases List.mem_append.1 mem with zero | digit
  · exact isDigit_of_mem_replicate zero
  · exact isDigit_of_mem_digits digit

theorem coefficient_small (c k : Nat) : (small c k).coefficient = c := by
  simp [coefficient, small, Nat.ofDigitChars_append, Nat.ofDigitChars_cons, ofDigitChars_digits]

/-- The digits of `c` and `k` zeros before the point. -/
def large (c k : Nat) : Numeral := ⟨false, digits c ++ List.replicate k '0', ['0'], none⟩

theorem valid_large {c : Nat} (positive : c ≠ 0) (k : Nat) : (large c k).Valid := by
  refine ⟨by simp [large, digits_ne_nil], fun d mem => ?_, fun zero => ?_, by simp [large], nofun⟩
  · rcases List.mem_append.1 mem with digit | zero
    · exact isDigit_of_mem_digits digit
    · exact isDigit_of_mem_replicate zero
  · rw [large, List.head?_append_of_ne_nil _ (digits_ne_nil c)] at zero
    exact absurd zero (head?_digits_ne positive)

theorem coefficient_large (c k : Nat) : (large c k).coefficient = c * 10 ^ (k + 1) := by
  have zero : (large c k).fraction = List.replicate 1 '0' := rfl
  rw [coefficient, zero, large, Nat.ofDigitChars_append, Nat.ofDigitChars_append, ofDigitChars_digits,
    Nat.ofDigitChars_replicate_zero, Nat.ofDigitChars_replicate_zero]
  ring

/-- The digits of `c` with the point after `w` of them. -/
def split (c w : Nat) (exponent : Option Exponent) : Numeral :=
  ⟨false, (digits c).take w, (digits c).drop w, exponent⟩

theorem valid_split {c w : Nat} (positive : c ≠ 0) (some : w ≠ 0) {exponent : Option Exponent}
    (valid : ∀ e ∈ exponent, e.Valid) : (split c w exponent).Valid := by
  refine ⟨?_, fun d mem => ?_, fun zero => ?_, fun d mem => ?_, valid⟩
  · simp [split, some, digits_ne_nil]
  · exact isDigit_of_mem_digits (List.mem_of_mem_take mem)
  · rw [split, List.head?_take, if_neg some] at zero
    exact absurd zero (head?_digits_ne positive)
  · exact isDigit_of_mem_digits (List.mem_of_mem_drop mem)

theorem coefficient_split (c w : Nat) (exponent : Option Exponent) :
    (split c w exponent).coefficient = c := by
  rw [coefficient, split, List.take_append_drop, ofDigitChars_digits]

end Numeral

theorem reads_small {c k : Nat} {e : Int} (place : e = -(k + (digits c).length : Nat)) :
    Reads ('0' :: '.' :: (List.replicate k '0' ++ digits c)) ⟨c, e⟩ := by
  have text : (Numeral.small c k).text = '0' :: '.' :: (List.replicate k '0' ++ digits c) := by
    simp [Numeral.text, Numeral.small, digits_ne_nil]
  have more : (Numeral.small c k).fraction ≠ [] := by simp [Numeral.small, digits_ne_nil]
  have scale : (Numeral.small c k).scale + (0 : Nat) = e := by
    simp [Numeral.scale, Numeral.small, place]
  rw [← text]
  apply reads_text (Numeral.valid_small c k) rfl (.inl more) 0 _ scale
  rw [Numeral.coefficient_small, Nat.pow_zero, Nat.mul_one]

theorem reads_large {c k : Nat} {e : Int} (positive : c ≠ 0) (place : e = k) :
    Reads (digits c ++ List.replicate k '0' ++ ['.', '0']) ⟨c, e⟩ := by
  have text : (Numeral.large c k).text = digits c ++ List.replicate k '0' ++ ['.', '0'] := by
    simp [Numeral.text, Numeral.large]
  have scale : (Numeral.large c k).scale + (k + 1 : Nat) = e := by
    simp [Numeral.scale, Numeral.large, place]
  rw [← text]
  exact reads_text (Numeral.valid_large positive k) rfl (.inl nofun) (k + 1) (Numeral.coefficient_large c k) scale

theorem reads_split {c w : Nat} {e : Int} (positive : c ≠ 0) (some : w ≠ 0) (within : w < (digits c).length)
    (place : e = w - (digits c).length) : Reads ((digits c).take w ++ '.' :: (digits c).drop w) ⟨c, e⟩ := by
  have text : (Numeral.split c w none).text = (digits c).take w ++ '.' :: (digits c).drop w := by
    simp [Numeral.text, Numeral.split, Nat.not_le.2 within]
  have more : (Numeral.split c w none).fraction ≠ [] := by simpa [Numeral.split] using within
  have scale : (Numeral.split c w none).scale + (0 : Nat) = e := by
    simp only [Numeral.scale, Numeral.split, Option.elim_none, List.length_drop]
    omega
  rw [← text]
  apply reads_text (Numeral.valid_split positive some (by simp)) rfl (.inl more) 0 _ scale
  rw [Numeral.coefficient_split, Nat.pow_zero, Nat.mul_one]

theorem reads_plain {c : Nat} (positive : c ≠ 0) (e : Int) :
    Reads (plain (digits c) (e + (digits c).length - 1)) ⟨c, e⟩ := by
  have length := List.length_pos_iff.2 (digits_ne_nil c)
  rw [plain]
  split
  · exact reads_small (by omega)
  · dsimp only
    split
    · exact reads_large positive (by omega)
    · exact reads_split positive (by omega) (by omega) (by omega)

/-- The exponent that a layout writes. -/
def writtenExponent (layout : Layout) (top : Int) : Exponent :=
  ⟨'e', if layout.plus && 0 < top then ['+'] else if top < 0 then ['-'] else [], digits top.natAbs⟩

theorem valid_writtenExponent (layout : Layout) (top : Int) : (writtenExponent layout top).Valid := by
  refine ⟨.inl rfl, ?_, digits_ne_nil _, fun d mem => isDigit_of_mem_digits mem⟩
  rw [writtenExponent]
  dsimp only
  split
  · exact .inr (.inl rfl)
  · split
    · exact .inr (.inr rfl)
    · exact .inl rfl

theorem value_writtenExponent (layout : Layout) (top : Int) : (writtenExponent layout top).value = top := by
  rw [Exponent.value, writtenExponent]
  dsimp only
  rw [ofDigitChars_digits]
  by_cases below : top < 0
  · rw [if_pos]
    · omega
    · simp [below, Int.not_lt.2 (Int.le_of_lt below)]
  · rw [if_neg]
    · omega
    · rw [if_neg below]
      split <;> decide

theorem text_writtenExponent (layout : Layout) (top : Int) : (writtenExponent layout top).text =
    'e' :: ((if layout.plus && 0 < top then ['+'] else []) ++ integer top) := by
  by_cases below : top < 0
  · simp [writtenExponent, Exponent.text, integer, below, Int.not_lt.2 (Int.le_of_lt below)]
  · simp [writtenExponent, Exponent.text, integer, below]

theorem reads_scientific (layout : Layout) {c : Nat} (positive : c ≠ 0) (e : Int) :
    Reads (layout.scientific (digits c) (e + (digits c).length - 1)) ⟨c, e⟩ := by
  have length := List.length_pos_iff.2 (digits_ne_nil c)
  generalize leading : e + (digits c).length - 1 = top
  have valid : (Numeral.split c 1 (some (writtenExponent layout top))).Valid := by
    apply Numeral.valid_split positive Nat.one_ne_zero
    rintro _ ⟨⟩
    exact valid_writtenExponent layout top
  have text : (Numeral.split c 1 (some (writtenExponent layout top))).text =
      layout.scientific (digits c) top := by
    simp [Numeral.text, Numeral.split, scientific, text_writtenExponent]
  have scale : (Numeral.split c 1 (some (writtenExponent layout top))).scale + (0 : Nat) = e := by
    simp only [Numeral.scale, Numeral.split, Option.elim_some, value_writtenExponent, List.length_drop]
    omega
  rw [← text]
  apply reads_text valid rfl (.inr nofun) 0 _ scale
  rw [Numeral.coefficient_split, Nat.pow_zero, Nat.mul_one]

theorem reads_decimal (layout : Layout) {d : Decimal} (positive : d.coefficient ≠ 0) :
    Reads (layout.decimal d) d := by
  rw [decimal]
  split
  · exact reads_plain positive d.exponent
  · exact reads_scientific layout positive d.exponent

theorem reads_zero : Reads ['0', '.', '0'] ⟨0, -1⟩ := reads_small (c := 0) (k := 0) rfl

theorem Reads.scalar {body : List Char} {d : Decimal} {x : Binary64} (reads : Reads body d)
    (magnitude : d.magnitude = x.magnitude) (finite : x.isFinite = true) :
    Scalar (if x.negative then '-' :: body else body) (.float x) := by
  obtain ⟨n, valid, text, double, value⟩ := reads x.negative
  have same : n.double = x := by
    rw [value, Decimal.ofDecimal_eq, magnitude, Binary64.ofParts_self]
  have written : n.text = if x.negative then '-' :: body else body := by
    rw [text]
    cases x.negative <;> rfl
  rw [← written]
  apply Scalar.number valid
  rw [Numeral.host?, double, if_neg Bool.false_ne_true, same, if_pos finite]

/-- A finite double is read back from its text. -/
theorem scalar_finite (layout : Layout) {x : Binary64} (finite : x.isFinite = true) :
    Scalar (layout.finite x) (.float x) := by
  rw [Layout.finite]
  by_cases zero : x.magnitude = 0
  · have magnitude : Decimal.magnitude ⟨0, -1⟩ = x.magnitude := by rw [Decimal.magnitude_zero, zero]
    rw [if_pos zero]
    exact reads_zero.scalar magnitude finite
  · have bound : x.magnitude ≤ Binary64.infinite := Nat.le_of_lt (of_decide_eq_true finite)
    have positive := Decimal.coefficient_shortest_ne_zero layout.tie zero bound
    rw [if_neg zero]
    exact (reads_decimal layout positive).scalar (Decimal.magnitude_shortest layout.tie bound) finite

end Json
end DynamicValues
