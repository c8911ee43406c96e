import DynamicValues.Word

/-!
Arithmetic progressions of words. A progression ends at its bound, and also where the next number would
not be a word. With a step that is not zero it always ends, since each number is nearer to the bound than
the one before or past it.
-/

set_option autoImplicit false

namespace DynamicValues

structure Range where
  start : Int64
  stop : Int64
  step : Int64

namespace Range

def reached (r : Range) (i : Int64) : Bool :=
  if 0 < r.step.toInt then r.stop.toInt ≤ i.toInt else i.toInt ≤ r.stop.toInt

/-- How far the bound is ahead. -/
def ahead (r : Range) (i : Int64) : Nat :=
  (if 0 < r.step.toInt then r.stop.toInt - i.toInt else i.toInt - r.stop.toInt).toNat

theorem toInt_step_ne_zero {r : Range} (moves : r.step ≠ 0) : r.step.toInt ≠ 0 :=
  fun zero => moves (Int64.toInt_inj.1 zero)

theorem ahead_lt {r : Range} (moves : r.step ≠ 0) {i j : Int64} (short : ¬r.reached i = true)
    (next : Word.add? i r.step = some j) : r.ahead j < r.ahead i := by
  have nonzero := toInt_step_ne_zero moves
  have sum := Word.toInt_of_add? next
  unfold reached at short
  unfold ahead
  split at short <;> rw [decide_eq_true_iff] at short <;> omega

/-- The numbers from `i` on, after those before, the latest of which comes first. -/
def walk (r : Range) (moves : r.step ≠ 0) (i : Int64) (before : List Int64) : List Int64 :=
  if short : r.reached i then before.reverse
  else
    match next : Word.add? i r.step with
    | some j =>
      have := ahead_lt moves short next
      r.walk moves j (i :: before)
    | none => (i :: before).reverse
termination_by r.ahead i

/-- All numbers of the progression. -/
def items (r : Range) (moves : r.step ≠ 0) : List Int64 := r.walk moves r.start []

end Range
end DynamicValues
