/-!
The kinds of values and their names.
-/

set_option autoImplicit false

namespace DynamicValues

inductive Kind where
  | none
  | bool
  | int
  | float
  | str
  | tuple
  | list
  | dict
  | slice
  | iter
  deriving DecidableEq

namespace Kind

def name : Kind → String
  | .none => "NoneType"
  | .bool => "bool"
  | .int => "int"
  | .float => "float"
  | .str => "str"
  | .tuple => "tuple"
  | .list => "list"
  | .dict => "dict"
  | .slice => "slice"
  | .iter => "iterator"

/-- The name of a kind in messages about indices. -/
def sequenceName : Kind → String
  | .str => "string"
  | kind => kind.name

/-- Where a kind stands in the order of values; numbers share a place. -/
def rank : Kind → Nat
  | .none => 0
  | .bool | .int | .float => 1
  | .str => 2
  | .tuple => 3
  | .list => 4
  | .dict => 5
  | .slice => 6
  | .iter => 7

end Kind
end DynamicValues
