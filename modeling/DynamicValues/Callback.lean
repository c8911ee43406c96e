import DynamicValues.Aggregate
import DynamicValues.Collect
import DynamicValues.Value.Display
import DynamicValues.Value.View

/-!
Functions that are passed to others, and what can be seen of them along a walk.
-/

set_option autoImplicit false

namespace DynamicValues

inductive Callback where
  | identity
  | str
  | len
  | hash
  | iter
  | list
  | tuple
  | sorted
  | min
  | sum

namespace Callback

def named? (name : Text) : Option Callback :=
  [("identity", identity), ("str", str), ("len", len), ("hash", hash), ("iter", iter), ("list", list),
    ("tuple", tuple), ("sorted", sorted), ("min", min), ("sum", sum)].lookup name.toString

def apply (f : Callback) (v : Value) : Run Value :=
  match f with
  | .identity => return v
  | .str => return .str (v.toText (← get))
  | .len => return .ofNat (← v.length)
  | .hash => return .int (← v.hash)
  | .iter => Run.iter v
  | .list => Run.list v
  | .tuple => Run.tuple v
  | .sorted => Run.sorted v
  | .min => Run.extremum .min v
  | .sum => Run.sum v (.int 0)

end Callback

namespace Run

/-- Adds to the results seen before, the latest of which comes first. -/
def observeLoop (i : Nat) (f : Value → Run Value) :
    Nat → List View → Run (List View × Option Error)
  | 0, seen => return (seen.reverse, none)
  | rounds + 1, seen => do
    match ← next i with
    | none => return (seen.reverse, none)
    | some x =>
      match ← attempt (f x) with
      | .error e => return (seen.reverse, some e)
      | .ok y => do observeLoop i f rounds (y.view (← get) :: seen)

/-- Applies `f` along a walk until it fails. The results are as they were when `f` gave them. -/
def observe (f : Value → Run Value) (v : Value) : Run (List View × Option Error) := do
  let i ← cursorOf v
  observeLoop i f (← remaining i) []

end Run
end DynamicValues
