import DynamicValues.Value.Basic

/-!
Operands that may be left out, or be given as none, at the end of a list of operands. Operands beyond
those that a call takes have no bearing on it.
-/

set_option autoImplicit false

namespace DynamicValues.Operand

def word? : Value → Option (Option Int64)
  | .none => some none
  | .int n => some (some n)
  | _ => none

/-- The first two words. -/
def bounds? : List Value → Option (Option Int64 × Option Int64)
  | [] => some (none, none)
  | [a] => do return (← word? a, none)
  | a :: b :: _ => do return (← word? a, ← word? b)

/-- The first text. -/
def text? : List Value → Option (Option Text)
  | [] => some none
  | .none :: _ => some none
  | .str t :: _ => some (some t)
  | _ => none

/-- The first natural number. -/
def limit? : List Value → Option (Option Nat)
  | [] => some none
  | .none :: _ => some none
  | .int n :: _ => if 0 ≤ n.toInt then some (some n.toInt.toNat) else none
  | _ => none

end DynamicValues.Operand
