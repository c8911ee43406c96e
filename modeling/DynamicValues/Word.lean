/-!
Sums of 64-bit words that notice when they leave the word range, or stop at its end.
-/

set_option autoImplicit false

namespace DynamicValues.Word

def ofBool (b : Bool) : Int64 := if b then 1 else 0

/-- The least integer above all words. -/
def limit : Int := 0x8000000000000000

/-- The word that stands for `n`, if there is one. -/
def ofInt? (n : Int) : Option Int64 :=
  if -limit ≤ n ∧ n < limit then some (Int64.ofInt n) else none

/-- The exact sum of two words, if it is a word. -/
def add? (a b : Int64) : Option Int64 :=
  ofInt? (a.toInt + b.toInt)

/-- The word nearest to `n`. -/
def saturate (n : Int) : Int64 := Int64.ofInt (max (-limit) (min n (limit - 1)))

/-- The sum of a word and an integer, or the word nearest to it. -/
def addSaturating (a : Int64) (n : Int) : Int64 := saturate (a.toInt + n)

theorem toInt_of_ofInt? {n : Int} {w : Int64} (h : ofInt? n = some w) : w.toInt = n := by
  unfold ofInt? at h
  split at h
  · next bounds =>
    cases h
    exact Int64.toInt_ofInt_of_le (by simpa [limit] using bounds.1) (by simpa [limit] using bounds.2)
  · cases h

@[simp] theorem ofInt?_toInt (w : Int64) : ofInt? w.toInt = some w := by
  have lower : -limit ≤ w.toInt := w.le_toInt
  have upper : w.toInt < limit := w.toInt_lt
  rw [ofInt?, if_pos ⟨lower, upper⟩, Int64.ofInt_toInt]

theorem ofInt?_eq_none {n : Int} : ofInt? n = none ↔ n < -limit ∨ limit ≤ n := by
  unfold ofInt?
  split <;> simp <;> omega

theorem toInt_saturate (n : Int) : (saturate n).toInt = max (-limit) (min n (limit - 1)) := by
  unfold saturate limit
  exact Int64.toInt_ofInt_of_le (by omega) (by omega)

theorem toInt_saturate_of_mem {n : Int} (lower : -limit ≤ n) (upper : n < limit) :
    (saturate n).toInt = n := by
  rw [toInt_saturate]
  omega

theorem toInt_of_add? {a b w : Int64} (h : add? a b = some w) : w.toInt = a.toInt + b.toInt :=
  toInt_of_ofInt? h

end DynamicValues.Word
