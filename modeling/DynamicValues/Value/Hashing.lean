import DynamicValues.Error
import DynamicValues.Hash

/-!
Hashes of values. A value that can change, or that holds one, has none.
-/

set_option autoImplicit false

namespace DynamicValues.Value

mutual

def hash : Value → Except Error Int64
  | .none => .ok Hash.absent
  | .bool b => .ok (Word.ofBool b)
  | .int n => .ok (Hash.int n)
  | .float x => .ok (Hash.float x)
  | .str t => .ok (Hash.text t.chars)
  | .tuple _ xs => do return Hash.sequence (← hashItems xs) xs.length
  | .list _ => .error (.unhashable .list)
  | .dict _ => .error (.unhashable .dict)
  | .slice _ => .error (.unhashable .slice)
  | .iter _ => .error (.unhashable .iter)

/-- The hashes of all items; the first item without one decides the error. -/
def hashItems : List Value → Except Error (List Int64)
  | [] => .ok []
  | x :: xs => do
    let h ← hash x
    return h :: (← hashItems xs)

end

end DynamicValues.Value
