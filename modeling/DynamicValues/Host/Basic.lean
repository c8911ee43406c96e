import DynamicValues.Binary64
import DynamicValues.Text.Basic

/-!
Host data: what values are exchanged as. The fields of an object are sorted by name, and no name comes
twice.
-/

set_option autoImplicit false

namespace DynamicValues

inductive Host where
  | null
  | bool (b : Bool)
  | integer (n : Int)
  | float (x : Binary64)
  | string (t : Text)
  | array (items : List Host)
  | object (fields : List (Text × Host))

instance : Inhabited Host := ⟨.null⟩

namespace Host

/-- Sorted fields with one more; a field of the same name gives way. -/
def insertField (name : Text) (h : Host) : List (Text × Host) → List (Text × Host)
  | [] => [(name, h)]
  | (other, g) :: fields =>
    match name.cmp other with
    | .lt => (name, h) :: (other, g) :: fields
    | .eq => (name, h) :: fields
    | .gt => (other, g) :: insertField name h fields

/-- Sorted fields with more of them put in, one after the other. -/
def putFields (sorted fields : List (Text × Host)) : List (Text × Host) :=
  fields.foldl (fun sorted (name, h) => insertField name h sorted) sorted

/-- An object from fields in any order; of equal names the last one counts. -/
def ofFields (fields : List (Text × Host)) : Host := .object (putFields [] fields)

end Host
end DynamicValues
