import DynamicValues.Host.Basic
import DynamicValues.Host.Serializer

/-!
Values as host data and back. Sequences become arrays and maps become objects, whose fields are put in one after
the other.
-/

set_option autoImplicit false

namespace DynamicValues

def Host.serializer : Serializer Host where
  unit := .null
  bool := .bool
  integer n := .integer n.toInt
  float := .float
  text := .string
  Seq := List Host
  beginSeq _ := []
  element items h := items ++ [h]
  endSeq := .array
  Map := List (Text × Host)
  beginMap _ := []
  entry fields name h := insertField name h fields
  endMap := .object

def Value.toHost (store : Store) (v : Value) : Except Error Host := v.serialize Host.serializer store

namespace Host

/-- An integer that is not a word becomes the nearest double. -/
def ofInteger (n : Int) : Value :=
  match Word.ofInt? n with
  | some w => .int w
  | none => .float (.ofInt n)

mutual

def toValue : Host → Value
  | .null => .none
  | .bool b => .bool b
  | .integer n => ofInteger n
  | .float x => .float x
  | .string t => .str t
  | .array items => .list (toValues items)
  | .object fields => .dict (toDict .empty fields)

def toValues : List Host → List Value
  | [] => []
  | h :: hs => toValue h :: toValues hs

/-- A dict with the fields put in, one after the other. -/
def toDict (d : Dict Value) : List (Text × Host) → Dict Value
  | [] => d
  | (name, h) :: fields => toDict (d.put (.ofText name) (toValue h)) fields

end

end Host
end DynamicValues
