import DynamicValues.Session.Reply

/-!
Operands as they are written: values, new iterators, and the names of variables.
-/

set_option autoImplicit false

namespace DynamicValues

inductive Literal where
  | none
  | bool (b : Bool)
  | int (n : Int64)
  | float (x : Binary64)
  | str (t : Text)
  | tuple (items : List Literal)
  | list (items : List Literal)
  | dict (bindings : List (Literal × Literal))
  | slice (s : Slice)
  | iter (items : List Literal)
  | var (name : String)

/-- Variables, the latest binding first. -/
abbrev Variables := List (String × Value)

/-- The variables with another value in the latest binding of a name. -/
def Variables.replace (name : String) (v : Value) : Variables → Variables
  | [] => []
  | (other, u) :: vars => if name == other then (other, v) :: vars else (other, u) :: replace name v vars

namespace Literal

mutual

/-- Every tuple and iterator that is written is a new one. -/
def eval (vars : Variables) : Literal → Eval Value
  | .none => return .none
  | .bool b => return .bool b
  | .int n => return .int n
  | .float x => return .float x
  | .str t => return .str t
  | .tuple items => do
    let xs ← evalItems vars items
    Run.newTuple xs
  | .list items => return .list (← evalItems vars items)
  | .dict bindings => return .dict (← evalBindings vars .empty bindings)
  | .slice s => return .slice s
  | .iter items => do
    let xs ← evalItems vars items
    Run.newIter xs
  | .var name =>
    match vars.lookup name with
    | some v => return v
    | Option.none => throw .malformed

def evalItems (vars : Variables) : List Literal → Eval (List Value)
  | [] => return []
  | l :: ls => do
    let x ← eval vars l
    return x :: (← evalItems vars ls)

/-- A dict with the bindings set one after the other. -/
def evalBindings (vars : Variables) (d : Dict Value) : List (Literal × Literal) → Eval (Dict Value)
  | [] => return d
  | (key, value) :: rest => do
    let k ← eval vars key
    let v ← eval vars value
    let d ← d.set k v
    evalBindings vars d rest

end

end Literal
end DynamicValues
