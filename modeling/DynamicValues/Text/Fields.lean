import DynamicValues.Text.Search

/-!
Stripping, splitting and joining.
-/

set_option autoImplicit false

namespace DynamicValues.Text

/-- Space, tab and newline. -/
def blanks : Text := ⟨[' ', '\t', '\n']⟩

def isBlank (c : Char) : Bool := blanks.chars.contains c

/-- The text without the characters of `set` that it starts with. -/
def stripLeft (t : Text) (set : Text) : Text := ⟨t.chars.dropWhile set.chars.contains⟩

/-- The text without the characters of `set` that it ends with. -/
def stripRight (t : Text) (set : Text) : Text :=
  ⟨(t.chars.reverse.dropWhile set.chars.contains).reverse⟩

def strip (t : Text) (set : Text) : Text := (t.stripLeft set).stripRight set

/-- The fields between the occurrences of `sep`. -/
def fields (sep : List Char) (nonempty : sep ≠ []) (s : List Char) : List (List Char) :=
  match found : cut? sep s with
  | none => [s]
  | some (before, after) =>
    have := length_lt_of_cut? found nonempty
    before :: fields sep nonempty after
termination_by s.length

/-- The fields at a separator; the empty separator gives none. -/
def split? (t sep : Text) : Option (List Text) :=
  if h : sep.chars = [] then none else some ((fields sep.chars h t.chars).map Text.mk)

/-- The fields between single characters that satisfy `p`. -/
def fieldsBy (p : Char → Bool) : List Char → List (List Char)
  | [] => [[]]
  | c :: cs =>
    if p c then [] :: fieldsBy p cs
    else
      match fieldsBy p cs with
      | [] => [[c]]
      | f :: fs => (c :: f) :: fs

/-- The fields between blanks, without the empty ones. -/
def words (t : Text) : List Text :=
  ((fieldsBy isBlank t.chars).filter fun f => !f.isEmpty).map Text.mk

def join (sep : Text) (parts : List Text) : Text :=
  ⟨List.intercalate sep.chars (parts.map Text.chars)⟩

end DynamicValues.Text
