import DynamicValues.Kind
import DynamicValues.Number
import DynamicValues.Slice
import DynamicValues.Text.Basic
import DynamicValues.Word

/-!
Values of a dynamic language. Lists and dicts are plain data. A tuple carries the identity of the storage
that holds its items, which its copies share, and an iterator is the index of a cursor in a store.
-/

set_option autoImplicit false

namespace DynamicValues

/-- A binding of a dict, with the hash of its key. -/
structure Entry (α : Type) where
  hash : Int64
  key : α
  value : α

/-- Bindings in the order in which their keys came in. -/
structure Dict (α : Type) where
  entries : List (Entry α)

inductive Value where
  | none
  | bool (b : Bool)
  | int (n : Int64)
  | float (x : Binary64)
  | str (t : Text)
  | tuple (storage : Nat) (items : List Value)
  | list (items : List Value)
  | dict (d : Dict Value)
  | slice (s : Slice)
  | iter (cursor : Nat)

instance : Inhabited Value := ⟨.none⟩

namespace Value

def kind : Value → Kind
  | .none => .none
  | .bool _ => .bool
  | .int _ => .int
  | .float _ => .float
  | .str _ => .str
  | .tuple .. => .tuple
  | .list _ => .list
  | .dict _ => .dict
  | .slice _ => .slice
  | .iter _ => .iter

/-- The number that a value is; booleans count as zero and one. -/
def number? : Value → Option Number
  | .bool b => some (.int (Word.ofBool b))
  | .int n => some (.int n)
  | .float x => some (.float x)
  | _ => Option.none

/-- The word that a value is as an index or as an exact summand. -/
def word? : Value → Option Int64
  | .bool b => some (Word.ofBool b)
  | .int n => some n
  | _ => Option.none

theorem number?_of_word? {v : Value} {n : Int64} (h : v.word? = some n) : v.number? = some (.int n) := by
  cases v with
  | bool _ | int _ =>
    cases h
    rfl
  | _ => cases h

def ofNat (n : Nat) : Value := .int (Int64.ofNat n)

def ofOption : Option Int64 → Value
  | Option.none => .none
  | some n => .int n

end Value
end DynamicValues
