import DynamicValues.Subscript

/-!
Choosing, adding and joining the items of values.
-/

set_option autoImplicit false

namespace DynamicValues

namespace Value

/-- The exact sum of two words, if it is a word; otherwise the sum of the operands as doubles. -/
def add (a b : Value) : Except Error Value :=
  match a.number?, b.number? with
  | some (.int m), some (.int n) =>
    match Word.add? m n with
    | some sum => .ok (.int sum)
    | Option.none => .ok (.float ((Binary64.ofInt m.toInt).add (.ofInt n.toInt)))
  | some x, some y => .ok (.float (x.toFloat.add y.toFloat))
  | _, _ => .error (.notAddable a.kind b.kind)

end Value

namespace Extremum

/-- The ordering of a better item against the best one so far. -/
def wanted : Extremum → Ordering
  | .min => .lt
  | .max => .gt

/-- The better of two; the earlier one if neither is. -/
def choose (e : Extremum) (best x : Value) : Value := if x.cmp best = e.wanted then x else best

end Extremum

namespace Run

/-- The first of the least, or of the greatest, items. -/
def extremum (e : Extremum) (v : Value) : Run Value := do
  let step (best : Option Value) (x : Value) : Run (Option Value) :=
    return some (best.elim x (e.choose · x))
  match ← foldCursor (← cursorOf v) none step with
  | some best => return best
  | none => throw (.noExtremum e)

def sum (v start : Value) : Run Value := do
  foldCursor (← cursorOf v) start fun total x => total.add x

/-- The texts of a walk, the last one first; an item that is no text is an error at its position. -/
def pushText (texts : List Text) : Value → Run (List Text)
  | .str t => return t :: texts
  | x => throw (.notText texts.length x.kind)

def join (sep : Text) (v : Value) : Run Text := do
  return sep.join (← foldCursor (← cursorOf v) [] pushText).reverse

end Run
end DynamicValues
