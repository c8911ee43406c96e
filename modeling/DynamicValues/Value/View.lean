import DynamicValues.Store

/-!
What can be seen of a value at one moment: iterators show how far they are, tuples do not show their
storage.
-/

set_option autoImplicit false

namespace DynamicValues

inductive View where
  | none
  | bool (b : Bool)
  | int (n : Int64)
  | float (x : Binary64)
  | str (t : Text)
  | tuple (items : List View)
  | list (items : List View)
  | dict (bindings : List (View × View))
  | slice (s : Slice)
  | iter (position total : Nat)

namespace Value

mutual

def view (store : Store) : Value → View
  | .none => .none
  | .bool b => .bool b
  | .int n => .int n
  | .float x => .float x
  | .str t => .str t
  | .tuple _ xs => .tuple (viewItems store xs)
  | .list xs => .list (viewItems store xs)
  | .dict ⟨es⟩ => .dict (viewEntries store es)
  | .slice s => .slice s
  | .iter i => .iter (store.cursor i).position (store.cursor i).total

def viewItems (store : Store) : List Value → List View
  | [] => []
  | x :: xs => view store x :: viewItems store xs

def viewEntries (store : Store) : List (Entry Value) → List (View × View)
  | [] => []
  | ⟨_, key, value⟩ :: es => (view store key, view store value) :: viewEntries store es

end

end Value
end DynamicValues
