import DynamicValues.Act
import DynamicValues.Items
import DynamicValues.Text.Fields

/-!
Length, membership, and reading and writing by subscript, for values of every kind.
-/

set_option autoImplicit false

namespace DynamicValues

namespace Text

/-- The one-character text at an index. -/
def get (t : Text) (i : Int64) : Except Error Text :=
  match ((Sequence.position? i t.length).bind (t.chars[·]?)).map ofChar with
  | some letter => .ok letter
  | none => .error (.indexOutOfRange .str)

/-- The characters that a slice selects. -/
def slice (t : Text) (s : Slice) : Except Error Text := do
  let chars := t.chars.toArray
  let indices ← s.resolve chars.size
  return ⟨indices.positions.filterMap (chars[·]?)⟩

def getItem (t : Text) : Value → Except Error Text
  | .slice s => t.slice s
  | key => do t.get (← Sequence.indexWord .str key)

def index (t sub : Text) (start stop : Option Int64) : Except Error Nat :=
  match t.findIn? sub start stop with
  | some i => .ok i
  | none => .error .substringNotFound

/-- The fields at a separator, or without one those between blanks. -/
def split (t : Text) : Option Text → Except Error (List Text)
  | none => .ok t.words
  | some sep =>
    match t.split? sep with
    | some fields => .ok fields
    | none => .error .emptySeparator

end Text

namespace Value

def length (v : Value) : Except Error Nat :=
  match v with
  | .str t => .ok t.length
  | .tuple _ xs => .ok xs.length
  | .list xs => .ok xs.length
  | .dict d => .ok d.length
  | v => .error (.noLength v.kind)

/-- An item, or a new sequence of the items that a slice selects. -/
def getItem (v key : Value) : Run Value :=
  match v with
  | .str t => do return .str (← t.getItem key)
  | .tuple _ xs =>
    match key with
    | .slice s => do Run.newTuple (← Sequence.slice xs s)
    | key => do Sequence.get .tuple xs (← Sequence.indexWord .tuple key)
  | .list xs =>
    match key with
    | .slice s => do return .list (← Sequence.slice xs s)
    | key => do Sequence.get .list xs (← Sequence.indexWord .list key)
  | .dict d => d.get key
  | v => throw (.notSubscriptable v.kind)

end Value

namespace ListEdit

/-- Assigns the items of a value to a slice. A value that cannot be walked and a step of zero are
noticed before any item is taken. -/
def setSlice (s : Slice) (values : Value) : Act Error (List Value) Unit := do
  let i ← Run.cursorOf values
  let r ← s.resolve (← Act.receiver).length
  let items ← Run.drain i
  assign r items

def setItem (key new : Value) : Act Error (List Value) Unit :=
  match key with
  | .slice s => setSlice s new
  | key => do set (← Sequence.indexWord .list key) new

def deleteItem (key : Value) : Edit (List Value) Unit :=
  match key with
  | .slice s => deleteSlice s
  | key => do delete (← Sequence.indexWord .list key)

end ListEdit

namespace ItemEdit

/-- Assigns an item of a list or a dict. -/
def set (key new : Value) : Act Error Value Unit := do
  match ← Act.receiver with
  | .list xs => Act.within xs .list (ListEdit.setItem key new)
  | .dict d => Act.within d .dict (DictEdit.set key new)
  | v => throw (.noItemAssignment v.kind)

/-- Deletes an item of a list or a dict. -/
def delete (key : Value) : Act Error Value Unit := do
  match ← Act.receiver with
  | .list xs => Act.within xs .list (ListEdit.deleteItem key)
  | .dict d => Act.within d .dict (DictEdit.delete key)
  | v => throw (.noItemDeletion v.kind)

end ItemEdit

namespace Value

/-- Membership. An iterator is walked up to and past the first item that is equal. -/
def contains (v item : Value) : Run Bool :=
  match v with
  | .str t =>
    match item with
    | .str sub => pure (t.contains sub)
    | item => throw (.notSubstring item.kind)
  | .tuple _ xs => pure (Sequence.contains xs item)
  | .list xs => pure (Sequence.contains xs item)
  | .dict d => d.contains item
  | .iter i => Run.seek i (· == item)
  | v => throw (.notContainer v.kind)

end Value
end DynamicValues
