import DynamicValues.Binary64

/-!
The shortest decimal that reads back as a given double: of all decimals with the fewest digits, one
nearest to the double. Which of two equally near ones is taken is left to the caller.
-/

set_option autoImplicit false

namespace DynamicValues

/-- `coefficient * 10 ^ exponent`. -/
structure Decimal where
  coefficient : Nat
  exponent : Int
  deriving DecidableEq

/-- Where a number goes that lies halfway between two candidates. -/
inductive Tie where
  | up
  | even
  deriving DecidableEq

namespace Decimal

/-- The magnitude of the double nearest to a decimal. -/
def magnitude (d : Decimal) : Nat := (Binary64.ofDecimal false d.coefficient d.exponent).magnitude

/-- The decimal without the zeros that end its coefficient; at most `fuel` of them go. -/
def trim : Nat → Decimal → Decimal
  | 0, d => d
  | fuel + 1, d =>
    if d.coefficient % 10 = 0 then trim fuel ⟨d.coefficient / 10, d.exponent + 1⟩ else d

/-- The exponent of the leading digit of `num / den`, which is positive. -/
def leading (num den : Nat) : Int :=
  if den ≤ num then (Nat.toDigits 10 (num / den)).length - 1
  else -(Nat.toDigits 10 ((den - 1) / num)).length

/-- Of the two neighbours of `num / den` on the grid of multiples of `10 ^ exponent`, the nearer one that
reads back as `magnitude`. -/
def neighbour? (tie : Tie) (magnitude num den : Nat) (exponent : Int) : Option Decimal :=
  let scale := Nat.pow 10 exponent.natAbs
  let scaledNum := if exponent < 0 then num * scale else num
  let scaledDen := if exponent < 0 then den else den * scale
  let below : Decimal := ⟨scaledNum / scaledDen, exponent⟩
  let above : Decimal := ⟨below.coefficient + 1, exponent⟩
  let twice := 2 * (scaledNum % scaledDen)
  let preferAbove :=
    scaledDen < twice || twice == scaledDen && (tie == .up || below.coefficient % 2 == 1)
  let order := if preferAbove then [above, below] else [below, above]
  order.find? fun d => d.magnitude == magnitude

/-- The double itself, written out. -/
def exact (magnitude : Nat) : Decimal := ⟨Binary64.unitsOf magnitude * Nat.pow 5 1074, -1074⟩

/-- The shortest decimal that reads back as the double of this magnitude, which is neither zero nor
infinite. Seventeen digits are enough for every double. -/
def shortest (tie : Tie) (magnitude : Nat) : Decimal :=
  let num := Binary64.unitsOf magnitude
  let top := leading num Binary64.one
  let found := (List.range 17).findSome? fun (digits : Nat) =>
    neighbour? tie magnitude num Binary64.one (top - digits)
  (found.getD (exact magnitude)).trim 800

end Decimal
end DynamicValues
