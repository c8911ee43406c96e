import DynamicValues.Value.Display

/-!
The wording of errors.
-/

set_option autoImplicit false

namespace DynamicValues.Error

/-- What went wrong. The store gives the text of a missing key. -/
def message (store : Store) : Error → String
  | .unhashable kind => s!"unhashable type: '{kind.name}'"
  | .noLength kind => s!"'{kind.name}' object has no attribute '__len__'"
  | .notSubscriptable kind => s!"'{kind.name}' object is not subscriptable"
  | .noItemAssignment kind => s!"'{kind.name}' object does not support item assignment"
  | .noItemDeletion kind => s!"'{kind.name}' object doesn't support item deletion"
  | .immutable kind => s!"'{kind.name}' object does not support mutation"
  | .notIterable kind => s!"'{kind.name}' object is not iterable"
  | .notContainer kind => s!"argument of type '{kind.name}' is not iterable"
  | .notSubstring kind => s!"'in <string>' requires string as left operand, not {kind.name}"
  | .badIndex sequence index =>
    s!"{sequence.sequenceName} indices must be integers or slices, not {index.name}"
  | .indexOutOfRange sequence => s!"{sequence.sequenceName} index out of range"
  | .assignmentOutOfRange => "list assignment index out of range"
  | .popFromEmpty => "pop from empty list"
  | .zeroStep => "slice step cannot be zero"
  | .zeroRangeStep => "range() arg 3 must not be zero"
  | .sizeMismatch given selected =>
    s!"attempt to assign sequence of size {given} to extended slice of size {selected}"
  | .itemNotFound sequence => s!"{sequence.name}.index(x): x not in {sequence.name}"
  | .nothingToRemove => "list.remove(x): x not in list"
  | .missingKey key => (key.toText store).toString
  | .emptyDict => "popitem(): dictionary is empty"
  | .notPair position kind =>
    s!"cannot convert dictionary update sequence element #{position} ('{kind.name}') to a sequence"
  | .pairLength position length =>
    s!"dictionary update sequence element #{position} has length {length}; 2 is required"
  | .substringNotFound => "substring not found"
  | .emptySeparator => "empty separator"
  | .notText position kind =>
    s!"sequence item {position}: expected str instance, {kind.name} found"
  | .noExtremum which => s!"{which.name}() arg is an empty sequence"
  | .notAddable left right =>
    s!"unsupported operand type(s) for +: '{left.name}' and '{right.name}'"
  | .noHostForm kind => s!"'{kind.name}' object has no host representation"

/-- The category and the message. -/
def describe (store : Store) (e : Error) : String := s!"{e.category.name}: {e.message store}"

end DynamicValues.Error
