import DynamicValues.Text.Basic
import DynamicValues.Text.Cased
import DynamicValues.Text.Lowercase
import DynamicValues.Text.Uppercase

/-!
Case conversion of texts. Each character is mapped by itself, but for a capital sigma, which has a form
of its own at the end of a word.
-/

set_option autoImplicit false

namespace DynamicValues.Text

/-- Whether a cased character comes next, past those without bearing on case. -/
def casedNext (cs : List Char) : Bool :=
  match cs.dropWhile isCaseIgnorable with
  | c :: _ => isCased c
  | [] => false

/-- The lowercase form of a sigma between the characters before it, the nearest first, and after it. -/
def sigma (before after : List Char) : Char :=
  if casedNext before && !casedNext after then 'ς' else 'σ'

def lowerFrom (before : List Char) : List Char → List Char
  | [] => []
  | c :: cs =>
    (if c = 'Σ' then [sigma before cs] else Lowercase.ofChar c) ++ lowerFrom (c :: before) cs

def lower (t : Text) : Text := ⟨lowerFrom [] t.chars⟩

def upper (t : Text) : Text := ⟨t.chars.flatMap Uppercase.ofChar⟩

end DynamicValues.Text
