/-!
Texts as sequences of characters. Positions and lengths count characters, and texts are ordered by their
code points.
-/

set_option autoImplicit false

namespace DynamicValues

structure Text where
  chars : List Char
  deriving DecidableEq

namespace Text

def ofString (s : String) : Text := ⟨s.toList⟩

def toString (t : Text) : String := String.ofList t.chars

def ofChar (c : Char) : Text := ⟨[c]⟩

def empty : Text := ⟨[]⟩

def length (t : Text) : Nat := t.chars.length

def isEmpty (t : Text) : Bool := t.chars.isEmpty

def cmp (s t : Text) : Ordering := List.compareLex compare s.chars t.chars

/-- The one-character texts that a text consists of. -/
def letters (t : Text) : List Text := t.chars.map ofChar

end Text
end DynamicValues
