import DynamicValues.Edit
import DynamicValues.Value.Equality
import DynamicValues.Value.Hashing

/-!
Dicts keep their bindings in the order in which the keys came in. A key is looked up by its hash and by
equality; setting an equal key replaces the value and keeps the first key in its place.
-/

set_option autoImplicit false

namespace DynamicValues

/-- A value with its hash. -/
structure Key where
  hash : Int64
  value : Value

namespace Key

def of (v : Value) : Except Error Key := do return ⟨← v.hash, v⟩

def ofText (t : Text) : Key := ⟨Hash.text t.chars, .str t⟩

def beq (k l : Key) : Bool := k.hash == l.hash && k.value == l.value

/-- Whether an entry is the one that the key looks for. -/
def finds (k : Key) (e : Entry Value) : Bool := k.hash == e.hash && k.value == e.key

end Key

namespace Dict

def empty : Dict Value := ⟨[]⟩

def length (d : Dict Value) : Nat := d.entries.length

def isEmpty (d : Dict Value) : Bool := d.entries.isEmpty

def keys (d : Dict Value) : List Value := d.entries.map Entry.key

def values (d : Dict Value) : List Value := d.entries.map Entry.value

def find? (d : Dict Value) (k : Key) : Option Value := (d.entries.find? k.finds).map Entry.value

/-- Entries with the value bound to a key, in place if the key is there and at the end if not. -/
def putEntry (k : Key) (v : Value) : List (Entry Value) → List (Entry Value)
  | [] => [⟨k.hash, k.value, v⟩]
  | e :: es => if k.finds e then ⟨e.hash, e.key, v⟩ :: es else e :: putEntry k v es

def put (d : Dict Value) (k : Key) (v : Value) : Dict Value := ⟨putEntry k v d.entries⟩

def erase (d : Dict Value) (k : Key) : Dict Value := ⟨d.entries.eraseP k.finds⟩

/-- Puts the bindings of `other` one after the other. -/
def update (d other : Dict Value) : Dict Value :=
  other.entries.foldl (fun d e => d.put ⟨e.hash, e.key⟩ e.value) d

def get (d : Dict Value) (key : Value) : Except Error Value := do
  match d.find? (← Key.of key) with
  | some v => return v
  | none => throw (.missingKey key)

def getD (d : Dict Value) (key absent : Value) : Except Error Value := do
  return (d.find? (← Key.of key)).getD absent

def contains (d : Dict Value) (key : Value) : Except Error Bool := do
  return (d.find? (← Key.of key)).isSome

end Dict

namespace DictEdit

/-- Binds a key; gives the value that it had before. -/
def insert (k : Key) (v : Value) : Edit (Dict Value) (Option Value) :=
  modifyGet fun d => (d.find? k, d.put k v)

/-- Takes out the binding of a key, if there is one; gives its value. -/
def take (k : Key) : Edit (Dict Value) (Option Value) :=
  modifyGet fun d => (d.find? k, d.erase k)

def set (key v : Value) : Edit (Dict Value) Unit := do
  let k ← Key.of key
  discard (insert k v)

def delete (key : Value) : Edit (Dict Value) Unit := do
  let k ← Key.of key
  .orFail (return (← take k).map fun _ => ()) (.missingKey key)

/-- Takes out the binding of a key and gives its value; for a missing key it gives `absent`, if there is
one. -/
def pop (key : Value) (absent : Option Value) : Edit (Dict Value) Value := do
  let k ← Key.of key
  .orFail (return (← take k).or absent) (.missingKey key)

/-- Takes out the first binding. -/
def popFirst : Edit (Dict Value) (Entry Value) :=
  .orFail (modifyGet fun d => (d.entries.head?, ⟨d.entries.tail⟩)) .emptyDict

def update (other : Dict Value) : Edit (Dict Value) Unit := modify (·.update other)

def clear : Edit (Dict Value) Unit := modify fun _ => .empty

end DictEdit

/-- The dict with a key bound. -/
def Dict.set (d : Dict Value) (key v : Value) : Except Error (Dict Value) := (DictEdit.set key v).on d

end DynamicValues
