import DynamicValues.Error

/-!
Sequences of items: indexing, slicing, searching. Texts, tuples and lists share these; only the errors
name their kind.
-/

set_option autoImplicit false

namespace DynamicValues

/-- A slice against a length. -/
def Slice.resolve (s : Slice) (len : Nat) : Except Error Indices :=
  match s.indices? len with
  | some r => .ok r
  | none => .error .zeroStep

namespace Sequence

variable {α : Type}

/-- The position that an index names, if there is one; a negative index counts from the end. -/
def position? (i : Int64) (len : Nat) : Option Nat :=
  let j := Slice.wrap i len
  if 0 ≤ j ∧ j < len then some j.toNat else none

def get (kind : Kind) (xs : List α) (i : Int64) : Except Error α :=
  match (position? i xs.length).bind (xs[·]?) with
  | some x => .ok x
  | none => .error (.indexOutOfRange kind)

/-- The items at positions, in the order of the positions. -/
def pick (xs : List α) (positions : List Nat) : List α :=
  let items := xs.toArray
  positions.filterMap (items[·]?)

theorem pick_eq_filterMap (xs : List α) (positions : List Nat) :
    pick xs positions = positions.filterMap (xs[·]?) := by
  simp [pick]

def slice (xs : List α) (s : Slice) : Except Error (List α) := do
  return pick xs (← s.resolve xs.length).positions

/-- The word that a value is as an index of a sequence. -/
def indexWord (kind : Kind) (key : Value) : Except Error Int64 :=
  match key.word? with
  | some i => .ok i
  | none => .error (.badIndex kind key.kind)

section Search
variable [BEq α]

def contains (xs : List α) (x : α) : Bool := xs.any (· == x)

def count (xs : List α) (x : α) : Nat := xs.countP (· == x)

/-- The first position in a window at which `x` stands. -/
def find? (xs : List α) (x : α) (start stop : Option Int64) : Option Nat :=
  let (lo, hi) := Slice.window start stop xs.length
  (((xs.take hi).drop lo).findIdx? (· == x)).map (lo + ·)

def find (kind : Kind) (xs : List α) (x : α) (start stop : Option Int64) : Except Error Nat :=
  match find? xs x start stop with
  | some i => .ok i
  | none => .error (.itemNotFound kind)

end Search
end Sequence
end DynamicValues
