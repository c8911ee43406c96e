import DynamicValues.Value.Basic

/-!
The ways in which an operation on values can fail.
-/

set_option autoImplicit false

namespace DynamicValues

inductive Category where
  | indexError
  | keyError
  | valueError
  | typeError
  | attributeError
  deriving DecidableEq

def Category.name : Category → String
  | .indexError => "IndexError"
  | .keyError => "KeyError"
  | .valueError => "ValueError"
  | .typeError => "TypeError"
  | .attributeError => "AttributeError"

/-- Which end of the order is asked for. -/
inductive Extremum where
  | min
  | max
  deriving DecidableEq

def Extremum.name : Extremum → String
  | .min => "min"
  | .max => "max"

inductive Error where
  | unhashable (kind : Kind)
  | noLength (kind : Kind)
  | notSubscriptable (kind : Kind)
  | noItemAssignment (kind : Kind)
  | noItemDeletion (kind : Kind)
  | immutable (kind : Kind)
  | notIterable (kind : Kind)
  | notContainer (kind : Kind)
  | notSubstring (kind : Kind)
  | badIndex (sequence index : Kind)
  | indexOutOfRange (sequence : Kind)
  | assignmentOutOfRange
  | popFromEmpty
  | zeroStep
  | zeroRangeStep
  | sizeMismatch (given selected : Nat)
  | itemNotFound (sequence : Kind)
  | nothingToRemove
  | missingKey (key : Value)
  | emptyDict
  | notPair (position : Nat) (kind : Kind)
  | pairLength (position length : Nat)
  | substringNotFound
  | emptySeparator
  | notText (position : Nat) (kind : Kind)
  | noExtremum (which : Extremum)
  | notAddable (left right : Kind)
  | noHostForm (kind : Kind)

namespace Error

def category : Error → Category
  | .indexOutOfRange _ | .assignmentOutOfRange | .popFromEmpty => .indexError
  | .missingKey _ | .emptyDict => .keyError
  | .zeroStep | .zeroRangeStep | .sizeMismatch .. | .itemNotFound _ | .nothingToRemove
  | .pairLength .. | .substringNotFound | .emptySeparator | .noExtremum _ => .valueError
  | .noLength _ => .attributeError
  | .unhashable _ | .notSubscriptable _ | .noItemAssignment _ | .noItemDeletion _ | .immutable _
  | .notIterable _ | .notContainer _ | .notSubstring _ | .badIndex .. | .notPair .. | .notText ..
  | .notAddable .. | .noHostForm _ => .typeError

end Error
end DynamicValues
