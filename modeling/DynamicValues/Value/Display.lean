import DynamicValues.Decimal.Layout
import DynamicValues.Store

/-!
The text of a value. Texts stand for themselves, without quotes, also inside containers.
-/

set_option autoImplicit false

namespace DynamicValues

/-- Doubles are written positionally from `0.0001` up to below `1e16`; a tie goes up. -/
def Layout.display : Layout := ⟨-4, 15, false, .up⟩

namespace Slice

def renderComponent : Option Int64 → List Char
  | none => "None".toList
  | some n => Layout.integer n.toInt

def render (s : Slice) : List Char :=
  "slice(".toList ++
    [',', ' '].intercalate [renderComponent s.start, renderComponent s.stop, renderComponent s.step] ++
    [')']

end Slice

namespace Cursor

def render (c : Cursor) : List Char :=
  "<iter at ".toList ++ Layout.digits c.position ++ " of ".toList ++ Layout.digits c.total ++ ['>']

end Cursor

namespace Value

def renderFloat (x : Binary64) : List Char :=
  if x.isNaN then "nan".toList
  else if x.isInfinite then (if x.negative then "-inf" else "inf").toList
  else Layout.display.finite x

def commas (parts : List (List Char)) : List Char := [',', ' '].intercalate parts

mutual

def render (store : Store) : Value → List Char
  | .none => "None".toList
  | .bool b => (if b then "True" else "False").toList
  | .int n => Layout.integer n.toInt
  | .float x => renderFloat x
  | .str t => t.chars
  | .tuple _ xs =>
    let comma := if xs.length = 1 then [','] else []
    '(' :: (commas (renderItems store xs) ++ comma ++ [')'])
  | .list xs => '[' :: (commas (renderItems store xs) ++ [']'])
  | .dict ⟨es⟩ => '\x7b' :: (commas (renderEntries store es) ++ ['\x7d'])
  | .slice s => s.render
  | .iter i => (store.cursor i).render

def renderItems (store : Store) : List Value → List (List Char)
  | [] => []
  | x :: xs => render store x :: renderItems store xs

def renderEntries (store : Store) : List (Entry Value) → List (List Char)
  | [] => []
  | ⟨_, key, value⟩ :: es =>
    (render store key ++ [':', ' '] ++ render store value) :: renderEntries store es

end

def toText (store : Store) (v : Value) : Text := ⟨v.render store⟩

end Value
end DynamicValues
