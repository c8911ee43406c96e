import DynamicValues.Callback
import DynamicValues.Session.Reply
import DynamicValues.Zip

/-!
Queries of iterators, and the functions that walk values.
-/

set_option autoImplicit false

namespace DynamicValues

/-- Reports what is seen of `f` along a walk. -/
def Eval.iterate (f : Value → Run Value) (v : Value) : Eval (Reply Value) := do
  let (results, error) ← Run.observe f v
  let store ← Eval.store
  return .seen results (error.map (·.report store))

inductive IterQuery where
  | next
  | position
  | remaining
  | isExhausted
  | sizeHint
  | intoIter
  | copy
  | iterate

def IterQuery.run (q : IterQuery) (operands : List Value) : Eval (Reply Value) :=
  match q, operands with
  | .next, .iter i :: _ => do
    match ← (Run.next i : Run _) with
    | some x => return .value x
    | none => return .exhausted
  | .position, .iter i :: _ => return .nat ((← Eval.store).cursor i).position
  | .remaining, .iter i :: _ => return .nat ((← Eval.store).cursor i).remaining
  | .isExhausted, .iter i :: _ => return .bool (((← Eval.store).cursor i).remaining == 0)
  | .sizeHint, .iter i :: _ => do
    let n := Value.ofNat ((← Eval.store).cursor i).remaining
    return .list [n, n]
  | .intoIter, v :: _ => return .value (← Run.iter v)
  | .copy, v :: _ => return .value (← Run.list v)
  | .iterate, .str name :: v :: _ => do
    let f ← Eval.expect (Callback.named? name)
    Eval.iterate f.apply v
  | _, _ => throw .malformed

inductive FunctionQuery where
  | range
  | rangeTo
  | map
  | lazyRange
  | zip
  | min
  | max
  | sum
  | len
  | hash
  | equals
  | str
  | iter
  | tuple
  | list
  | dict
  | sorted

def FunctionQuery.run (q : FunctionQuery) (operands : List Value) : Eval (Reply Value) :=
  match q, operands with
  | .range, .bool b :: .int start :: .int stop :: .int step :: _ =>
    return .value (← Run.range ⟨b⟩ ⟨start, stop, step⟩)
  | .rangeTo, .bool b :: .int stop :: _ => return .value (← Run.range ⟨b⟩ ⟨0, stop, 1⟩)
  | .map, .bool b :: .str name :: v :: _ => do
    let f ← Eval.expect (Callback.named? name)
    return .value (← Run.map ⟨b⟩ f.apply v)
  | .lazyRange, .int start :: .int stop :: .int step :: _ =>
    return .value (← Run.lazyRange ⟨start, stop, step⟩)
  | .zip, vs => return .value (← Run.zip vs)
  | .min, v :: _ => return .value (← Run.extremum .min v)
  | .max, v :: _ => return .value (← Run.extremum .max v)
  | .sum, v :: start :: _ => return .value (← Run.sum v start)
  | .len, v :: _ => return .nat (← v.length)
  | .hash, v :: _ => return .int (← v.hash)
  | .equals, a :: b :: _ => return .bool (a == b)
  | .str, v :: _ => return .text (v.toText (← Eval.store))
  | .iter, v :: _ => return .value (← Run.iter v)
  | .tuple, v :: _ => return .value (← Run.tuple v)
  | .list, v :: _ => return .value (← Run.list v)
  | .dict, v :: _ => return .value (← Run.dict v)
  | .sorted, v :: _ => return .value (← Run.sorted v)
  | _, _ => throw .malformed

end DynamicValues
