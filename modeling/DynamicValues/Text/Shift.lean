/-!
Character mappings as tables: runs of characters that move by one distance, and single characters that
become a sequence.
-/

set_option autoImplicit false

namespace DynamicValues

/-- Every `stride`-th character from `first` to `last` moves by `distance`. -/
structure Shift where
  first : Nat
  last : Nat
  stride : Nat
  distance : Int

namespace Shift

def covers (s : Shift) (code : Nat) : Bool :=
  s.first ≤ code && code ≤ s.last && (code - s.first) % s.stride == 0

/-- What a character becomes under the tables; a character in neither stays. -/
def mapping (shifts : List Shift) (sequences : List (Nat × List Nat)) (c : Char) : List Char :=
  match shifts.find? (·.covers c.toNat) with
  | some s => [Char.ofNat (c.toNat + s.distance).toNat]
  | none =>
    match sequences.lookup c.toNat with
    | some codes => codes.map Char.ofNat
    | none => [c]

end Shift
end DynamicValues
