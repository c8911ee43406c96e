import DynamicValues.Collect
import DynamicValues.Session.Reply

/-!
Making dicts, and queries of keys and hashes.
-/

set_option autoImplicit false

namespace DynamicValues

inductive DictQuery where
  | ofPairs
  | ofBindings
  | ofTexts
  | sameKey
  | keyValue

namespace DictQuery

/-- A dict of keys and values that alternate. -/
def bindings (key : Value → Eval Key) : Dict Value → List Value → Eval (Dict Value)
  | d, [] => return d
  | d, k :: v :: rest => do bindings key (d.put (← key k) v) rest
  | _, [_] => throw .malformed

def textKey : Value → Eval Key
  | .str t => return .ofText t
  | _ => throw .malformed

def run (q : DictQuery) (operands : List Value) : Eval (Reply Value) :=
  match q, operands with
  | .ofPairs, .list pairs :: _ => do
    let i ← Run.newCursor pairs
    return .value (.dict (← Run.dictOf i))
  | .ofBindings, operands => return .value (.dict (← bindings (fun k => Key.of k) .empty operands))
  | .ofTexts, operands => return .value (.dict (← bindings textKey .empty operands))
  | .sameKey, a :: b :: _ => do
    let k ← Key.of a
    let l ← Key.of b
    return .bool (k.beq l)
  | .keyValue, v :: _ => do
    let k ← Key.of v
    return .list [k.value, k.value]
  | _, _ => throw .malformed

end DictQuery

inductive HashQuery where
  | remap
  | int
  | float
  | text
  | sequence

def HashQuery.run (q : HashQuery) (operands : List Value) : Eval (Reply Value) :=
  match q, operands with
  | .remap, .int h :: _ => return .int (Hash.remap h)
  | .int, .int n :: _ => return .int (Hash.int n)
  | .float, .float x :: _ => return .int (Hash.float x)
  | .text, .str t :: _ => return .int (Hash.text t.chars)
  | .sequence, .list xs :: .int len :: _ =>
    return .int (Hash.sequence (← Value.hashItems xs) len.toInt.toNat)
  | _, _ => throw .malformed

end DynamicValues
