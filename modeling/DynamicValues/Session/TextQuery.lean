import DynamicValues.Aggregate
import DynamicValues.Session.Operand
import DynamicValues.Session.Reply
import DynamicValues.Text.Case
import DynamicValues.Text.Replace

/-!
Queries of texts and of slices.
-/

set_option autoImplicit false

namespace DynamicValues

inductive TextQuery where
  | len
  | isEmpty
  | get
  | slice
  | getItem
  | contains
  | find
  | findIn
  | rfind
  | index
  | count
  | strip
  | stripLeft
  | stripRight
  | split
  | join
  | replace
  | lower
  | upper
  | hash
  | cmp
  | toHost

/-- A query of the text `t`. -/
def TextQuery.run (q : TextQuery) (t : Text) (operands : List Value) : Eval (Reply Value) :=
  match q, operands with
  | .len, _ => return .nat t.length
  | .isEmpty, _ => return .bool t.isEmpty
  | .get, .int i :: _ => return .text (← t.get i)
  | .slice, .slice s :: _ => return .text (← t.slice s)
  | .getItem, key :: _ => return .text (← t.getItem key)
  | .contains, .str sub :: _ => return .bool (t.contains sub)
  | .find, .str sub :: _ => return .position (t.find? sub)
  | .findIn, .str sub :: bounds => do
    let (start, stop) ← Eval.expect (Operand.bounds? bounds)
    return .position (t.findIn? sub start stop)
  | .rfind, .str sub :: _ => return .position (t.rfind? sub)
  | .index, .str sub :: bounds => do
    let (start, stop) ← Eval.expect (Operand.bounds? bounds)
    return .nat (← t.index sub start stop)
  | .count, .str sub :: bounds => do
    let (start, stop) ← Eval.expect (Operand.bounds? bounds)
    return .nat (t.count sub start stop)
  | .strip, set => do
    let set ← Eval.expect (Operand.text? set)
    return .text (t.strip (set.getD Text.blanks))
  | .stripLeft, set => do
    let set ← Eval.expect (Operand.text? set)
    return .text (t.stripLeft (set.getD Text.blanks))
  | .stripRight, set => do
    let set ← Eval.expect (Operand.text? set)
    return .text (t.stripRight (set.getD Text.blanks))
  | .split, sep => do
    let sep ← Eval.expect (Operand.text? sep)
    return .list ((← t.split sep).map .str)
  | .join, v :: _ => return .text (← Run.join t v)
  | .replace, .str old :: .str new :: limit => do
    let limit ← Eval.expect (Operand.limit? limit)
    return .text (t.replace old new limit)
  | .lower, _ => return .text t.lower
  | .upper, _ => return .text t.upper
  | .hash, _ => return .int (Hash.text t.chars)
  | .cmp, .str other :: _ => return .ordering (t.cmp other)
  | .toHost, _ => return .host (.string t)
  | _, _ => throw .malformed

inductive SliceQuery where
  | upTo
  | components
  | cmp
  | indices

def SliceQuery.run (q : SliceQuery) (operands : List Value) : Eval (Reply Value) :=
  match q, operands with
  | .upTo, .int stop :: _ => return .value (.slice (.upTo stop))
  | .components, .slice s :: _ =>
    return .value (← Run.newTuple [.ofOption s.start, .ofOption s.stop, .ofOption s.step])
  | .cmp, .slice s :: .slice t :: _ => return .ordering (s.cmp t)
  | .indices, .slice s :: .int len :: _ => return .indices (← s.resolve len.toInt.toNat)
  | _, _ => throw .malformed

end DynamicValues
