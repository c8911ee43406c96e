import DynamicValues.Collect
import DynamicValues.Host.Exchange
import DynamicValues.Host.Json
import DynamicValues.Session.Operand
import DynamicValues.Session.Reply

/-!
Queries of values of any kind, and of the items of tuples and lists.
-/

set_option autoImplicit false

namespace DynamicValues

inductive ValueQuery where
  | typeName
  | isNone
  | len
  | hash
  | eq
  | cmp
  | getItem
  | contains
  | iter
  | str
  | toHost
  | toJson

def ValueQuery.run (q : ValueQuery) (operands : List Value) : Eval (Reply Value) :=
  match q, operands with
  | .typeName, v :: _ => return .text (.ofString v.kind.name)
  | .isNone, v :: _ => return .bool (v.kind == .none)
  | .len, v :: _ => return .nat (← v.length)
  | .hash, v :: _ => return .int (← v.hash)
  | .eq, a :: b :: _ => return .bool (a == b)
  | .cmp, a :: b :: _ => return .ordering (a.cmp b)
  | .getItem, v :: key :: _ => return .value (← v.getItem key)
  | .contains, v :: item :: _ => return .bool (← v.contains item)
  | .iter, v :: _ => return .value (← Run.iter v)
  | .str, v :: _ => return .text (v.toText (← Eval.store))
  | .toHost, v :: _ => return .host (← v.toHost (← Eval.store))
  | .toJson, v :: _ => do
    match Json.write .json (← Eval.store) v with
    | .ok cs => return .text ⟨cs⟩
    | .error e => throw (.unwritable e)
  | _, _ => throw .malformed

inductive SequenceQuery where
  | len
  | isEmpty
  | get
  | slice
  | getItem
  | contains
  | count
  | indexOf
  | toHost

/-- A query of a sequence `v` with the items `xs`. -/
def SequenceQuery.run (q : SequenceQuery) (v : Value) (xs operands : List Value) : Eval (Reply Value) :=
  match q, operands with
  | .len, _ => return .nat xs.length
  | .isEmpty, _ => return .bool xs.isEmpty
  | .get, .int i :: _ => return .value (← Sequence.get v.kind xs i)
  | .slice, .slice s :: _ => return .value (← v.getItem (.slice s))
  | .getItem, key :: _ => return .value (← v.getItem key)
  | .contains, x :: _ => return .bool (Sequence.contains xs x)
  | .count, x :: _ => return .nat (Sequence.count xs x)
  | .indexOf, x :: bounds => do
    let (start, stop) ← Eval.expect (Operand.bounds? bounds)
    return .nat (← Sequence.find v.kind xs x start stop)
  | .toHost, _ => return .host (← v.toHost (← Eval.store))
  | _, _ => throw .malformed

end DynamicValues
