import DynamicValues.Dict
import DynamicValues.Store

/-!
Computations over a store. What a computation did to the store before it failed stays done.

Walking a value means walking a cursor: an iterator has one, and a container gets a new one over its
items. Loops run for at most as many rounds as the cursor has items left, which is always enough, since
each round takes one.
-/

set_option autoImplicit false

namespace DynamicValues

abbrev Run := ExceptT Error (StateM Store)

namespace Run

def newCursor (items : List Value) : Run Nat := modifyGet fun s => s.addCursor items

def newIter (items : List Value) : Run Value := do return .iter (← newCursor items)

def newTuple (items : List Value) : Run Value := do
  let storage ← modifyGet fun s => s.addStorage
  return .tuple storage items

def next (i : Nat) : Run (Option Value) := modifyGet fun s => s.advance i

/-- The outcome of a computation, which then cannot fail any more. -/
def attempt {α : Type} (m : Run α) : Run (Except Error α) := ExceptT.lift m.run

def remaining (i : Nat) : Run Nat := do return ((← get).cursor i).remaining

/-- The cursor that walks a value. -/
def cursorOf : Value → Run Nat
  | .iter i => pure i
  | .str t => newCursor (t.letters.map .str)
  | .tuple _ xs => newCursor xs
  | .list xs => newCursor xs
  | .dict d => newCursor d.keys
  | v => throw (.notIterable v.kind)

variable {β : Type}

def foldLoop (i : Nat) (f : β → Value → Run β) : Nat → β → Run β
  | 0, b => pure b
  | rounds + 1, b => do
    match ← next i with
    | none => pure b
    | some x => foldLoop i f rounds (← f b x)

/-- Folds over the items that a cursor has left. -/
def foldCursor (i : Nat) (init : β) (f : β → Value → Run β) : Run β := do
  foldLoop i f (← remaining i) init

/-- Applies `f` to the items that a cursor has left, each before the next one is taken. -/
def mapCursor (i : Nat) (f : Value → Run β) : Run (List β) := do
  let ys ← foldCursor i [] fun ys x => return (← f x) :: ys
  return ys.reverse

/-- The items that a cursor has left, which it then has no more. -/
def drain (i : Nat) : Run (List Value) := mapCursor i pure

def seekLoop (i : Nat) (p : Value → Bool) : Nat → Run Bool
  | 0 => pure false
  | rounds + 1 => do
    match ← next i with
    | none => pure false
    | some x => if p x then pure true else seekLoop i p rounds

/-- Moves a cursor past the next item that satisfies `p`; says whether there was one. -/
def seek (i : Nat) (p : Value → Bool) : Run Bool := do
  seekLoop i p (← remaining i)

/-- The items of a value. -/
def itemsOf (v : Value) : Run (List Value) := do drain (← cursorOf v)

end Run
end DynamicValues
