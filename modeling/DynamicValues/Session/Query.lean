import DynamicValues.Session.KeyQuery
import DynamicValues.Session.TextQuery
import DynamicValues.Session.ValueQuery
import DynamicValues.Session.WalkQuery

/-!
Calls that leave their operands in place. An operand that is missing or of the wrong kind makes a call
malformed; operands beyond those that it takes have no bearing on it.
-/

set_option autoImplicit false

namespace DynamicValues

inductive Query where
  /-- Answers its operand. -/
  | identity
  | value (q : ValueQuery)
  | sequence (q : SequenceQuery)
  | text (q : TextQuery)
  | slice (q : SliceQuery)
  | iter (q : IterQuery)
  | dict (q : DictQuery)
  | function (q : FunctionQuery)
  | hash (q : HashQuery)

def Query.run (q : Query) (operands : List Value) : Eval (Reply Value) :=
  match q with
  | .identity =>
    match operands with
    | v :: _ => return .value v
    | _ => throw .malformed
  | .value q => q.run operands
  | .sequence q =>
    match operands with
    | .tuple i xs :: rest => q.run (.tuple i xs) xs rest
    | .list xs :: rest => q.run (.list xs) xs rest
    | _ => throw .malformed
  | .text q =>
    match operands with
    | .str t :: rest => q.run t rest
    | _ => throw .malformed
  | .slice q => q.run operands
  | .iter q => q.run operands
  | .dict q => q.run operands
  | .function q => q.run operands
  | .hash q => q.run operands

end DynamicValues
