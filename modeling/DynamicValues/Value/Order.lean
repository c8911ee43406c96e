import DynamicValues.Value.Basic

/-!
The order of values. Numbers, texts, tuples and lists are ordered among their own; values of different
kinds by the rank of their kinds.
-/

set_option autoImplicit false

namespace DynamicValues.Value

def compareRank (a b : Value) : Ordering := compare a.kind.rank b.kind.rank

/-- The order of values that hold no others. -/
def compareScalar (a b : Value) : Ordering :=
  match a.number?, b.number? with
  | some x, some y => x.cmp y
  | _, _ => compareRank a b

mutual

def cmp (a b : Value) : Ordering :=
  match a with
  | .str s => match b with
    | .str t => s.cmp t
    | _ => compareRank (.str s) b
  | .tuple i xs => match b with
    | .tuple _ ys => cmpItems xs ys
    | _ => compareRank (.tuple i xs) b
  | .list xs => match b with
    | .list ys => cmpItems xs ys
    | _ => compareRank (.list xs) b
  | .none => compareScalar .none b
  | .bool x => compareScalar (.bool x) b
  | .int n => compareScalar (.int n) b
  | .float x => compareScalar (.float x) b
  | .dict d => compareScalar (.dict d) b
  | .slice s => compareScalar (.slice s) b
  | .iter i => compareScalar (.iter i) b

/-- The first difference decides, then the length. -/
def cmpItems : List Value → List Value → Ordering
  | [], [] => .eq
  | [], _ :: _ => .lt
  | _ :: _, [] => .gt
  | x :: xs, y :: ys => (cmp x y).then (cmpItems xs ys)

end

/-- Whether `a` may stand before `b` in a sorted list. -/
def le (a b : Value) : Bool := a.cmp b != .gt

end DynamicValues.Value
