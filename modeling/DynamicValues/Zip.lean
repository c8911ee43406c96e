import DynamicValues.Run

/-!
Walking several values side by side.
-/

set_option autoImplicit false

namespace DynamicValues.Run

/-- One item of each cursor, in order; none from those after an exhausted one. -/
def pullRow : List Nat → Run (Option (List Value))
  | [] => return some []
  | i :: is => do
    match ← next i with
    | none => return none
    | some x => return (← pullRow is).map (x :: ·)

/-- Adds at most so many rows to those before, the latest of which comes first. -/
def zipLoop (is : List Nat) : Nat → List Value → Run (List Value)
  | 0, rows => return rows.reverse
  | rounds + 1, rows => do
    match ← pullRow is with
    | none => return rows.reverse
    | some row => do zipLoop is rounds ((← newTuple row) :: rows)

/-- Rows of items until one of the values is exhausted. Each row takes an item of the first value, so
there are no more rows than that one has items left. -/
def zip (vs : List Value) : Run Value := do
  match ← vs.mapM cursorOf with
  | [] => return .list []
  | i :: is => return .list (← zipLoop (i :: is) (← remaining i) [])

end DynamicValues.Run
