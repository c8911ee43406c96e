import DynamicValues.Dict
import DynamicValues.Value.Display

/-!
Values on their way into a data format. The format says what it makes of scalars, and how it builds sequences and
maps item by item. A value goes into all formats in the same way: tuples and lists are sequences, dicts are maps
from the texts of their keys in the order of their bindings, and doubles that are not finite are the unit. Slices
and iterators go nowhere.
-/

set_option autoImplicit false

namespace DynamicValues

structure Serializer (α : Type) where
  unit : α
  bool : Bool → α
  integer : Int64 → α
  float : Binary64 → α
  text : Text → α
  /-- A sequence that is being built. -/
  Seq : Type
  beginSeq : Nat → Seq
  element : Seq → α → Seq
  endSeq : Seq → α
  /-- A map that is being built. -/
  Map : Type
  beginMap : Nat → Map
  entry : Map → Text → α → Map
  endMap : Map → α

namespace Value

variable {α : Type}

mutual

def serialize (ser : Serializer α) (store : Store) : Value → Except Error α
  | .none => .ok ser.unit
  | .bool b => .ok (ser.bool b)
  | .int n => .ok (ser.integer n)
  | .float x => .ok (if x.isFinite then ser.float x else ser.unit)
  | .str t => .ok (ser.text t)
  | .tuple _ xs => do return ser.endSeq (← serializeItems ser store (ser.beginSeq xs.length) xs)
  | .list xs => do return ser.endSeq (← serializeItems ser store (ser.beginSeq xs.length) xs)
  | .dict ⟨es⟩ => do return ser.endMap (← serializeEntries ser store (ser.beginMap es.length) es)
  | .slice _ => .error (.noHostForm .slice)
  | .iter _ => .error (.noHostForm .iter)

/-- Adds items to a sequence. -/
def serializeItems (ser : Serializer α) (store : Store) (seq : ser.Seq) : List Value → Except Error ser.Seq
  | [] => .ok seq
  | x :: xs => do serializeItems ser store (ser.element seq (← serialize ser store x)) xs

/-- Adds bindings to a map. -/
def serializeEntries (ser : Serializer α) (store : Store) (map : ser.Map) :
    List (Entry Value) → Except Error ser.Map
  | [] => .ok map
  | ⟨_, key, value⟩ :: es => do
    serializeEntries ser store (ser.entry map (key.toText store) (← serialize ser store value)) es

end

end Value
end DynamicValues
