import DynamicValues.Edit
import DynamicValues.Sequence
import DynamicValues.Value.Equality
import DynamicValues.Value.Order

/-!
Changes of the items of a list.
-/

set_option autoImplicit false

namespace DynamicValues

namespace Items

/-- The position that an index names. -/
def position (xs : List Value) (i : Int64) : Except Error Nat :=
  match Sequence.position? i xs.length with
  | some p => .ok p
  | none => .error .assignmentOutOfRange

/-- `v` goes before the item of index `i`; an index out of range goes to the nearer end. -/
def insert (xs : List Value) (i : Int64) (v : Value) : List Value :=
  let p := min (Slice.wrap i xs.length).toNat xs.length
  xs.take p ++ v :: xs.drop p

/-- Whether each position below `len` is among the given ones. -/
def marks (len : Nat) (positions : List Nat) : Array Bool :=
  positions.foldl (fun doomed p => doomed.setIfInBounds p true) (Array.replicate len false)

/-- A sweep over items: those kept so far, the last one first, and the position of the next one. -/
structure Sweep where
  kept : List Value
  position : Nat

def Sweep.start : Sweep := ⟨[], 0⟩

/-- The sweep past one more item, which is kept if its position is not marked. -/
def Sweep.past (doomed : Array Bool) (w : Sweep) (x : Value) : Sweep :=
  ⟨if doomed.getD w.position false then w.kept else x :: w.kept, w.position + 1⟩

/-- The items at positions other than the given ones. -/
def dropPositions (xs : List Value) (positions : List Nat) : List Value :=
  (xs.foldl (Sweep.past (marks xs.length positions)) .start).kept.reverse

/-- Sorted; items that compare equal keep their order. -/
def sort (xs : List Value) : List Value := xs.mergeSort Value.le

end Items

namespace ListEdit

def set (i : Int64) (v : Value) : Edit (List Value) Unit := do
  let p ← Items.position (← get) i
  modify (·.set p v)

def delete (i : Int64) : Edit (List Value) Unit := do
  let p ← Items.position (← get) i
  modify (·.eraseIdx p)

def append (v : Value) : Edit (List Value) Unit := modify (· ++ [v])

def extend (values : List Value) : Edit (List Value) Unit := modify (· ++ values)

def insert (i : Int64) (v : Value) : Edit (List Value) Unit := modify (Items.insert · i v)

/-- Removes the first item that is equal to `v`. -/
def remove (v : Value) : Edit (List Value) Unit := do
  match Sequence.find? (← get) v none none with
  | some p => modify (·.eraseIdx p)
  | none => throw .nothingToRemove

/-- Takes off the last item. -/
def pop : Edit (List Value) Value :=
  .orFail (modifyGet fun xs => (xs.getLast?, xs.dropLast)) .popFromEmpty

/-- Takes off the item of index `i`. -/
def popAt (i : Int64) : Edit (List Value) Value := do
  if (← get).isEmpty then throw .popFromEmpty
  else
    let p ← Items.position (← get) i
    .orFail (modifyGet fun xs => (xs[p]?, xs.eraseIdx p)) .assignmentOutOfRange

/-- Writes values at positions, one after the other. -/
def write : List (Nat × Value) → Edit (List Value) Unit
  | [] => return
  | (p, v) :: rest => do
    modify (·.set p v)
    write rest

/-- The resolved slice gives way to the values: as a whole if its step is one, else position by position, for
which their number has to be right. -/
def assign (r : Indices) (values : List Value) : Edit (List Value) Unit :=
  if r.step = 1 then modify fun xs => xs.take r.start ++ values ++ xs.drop (max r.start r.stop)
  else if r.length ≠ values.length then throw (.sizeMismatch values.length r.length)
  else write (r.positions.zip values)

/-- Removes the items that a slice selects. -/
def deleteSlice (s : Slice) : Edit (List Value) Unit := do
  let r ← s.resolve (← get).length
  if r.step = 1 then modify fun xs => xs.take r.start ++ xs.drop (max r.start r.stop)
  else modify (Items.dropPositions · r.positions)

def sort : Edit (List Value) Unit := modify Items.sort

def reverse : Edit (List Value) Unit := modify List.reverse

end ListEdit
end DynamicValues
