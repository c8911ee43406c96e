import DynamicValues.Value.Basic

/-!
Equality of values. Numbers are equal across their kinds when they are the same number; tuples that share
storage are equal at once; dicts are equal when each binding of one is found in the other; iterators are
equal when they share their cursor. Values of other kinds are unequal.
-/

set_option autoImplicit false

namespace DynamicValues.Value

def sameNumber (a b : Value) : Bool :=
  match a.number?, b.number? with
  | some x, some y => x.beq y
  | _, _ => false

mutual

def beq (a b : Value) : Bool :=
  match a with
  | .none => match b with
    | .none => true
    | _ => false
  | .str s => match b with
    | .str t => s == t
    | _ => false
  | .tuple i xs => match b with
    | .tuple j ys => i == j || beqItems xs ys
    | _ => false
  | .list xs => match b with
    | .list ys => beqItems xs ys
    | _ => false
  | .dict ⟨es⟩ => match b with
    | .dict ⟨fs⟩ => es.length == fs.length && beqEntries es fs
    | _ => false
  | .slice s => match b with
    | .slice t => s == t
    | _ => false
  | .iter i => match b with
    | .iter j => i == j
    | _ => false
  | .bool x => sameNumber (.bool x) b
  | .int n => sameNumber (.int n) b
  | .float x => sameNumber (.float x) b

def beqItems : List Value → List Value → Bool
  | [], [] => true
  | x :: xs, y :: ys => beq x y && beqItems xs ys
  | _, _ => false

/-- Whether each binding of the first list is one of the second. -/
def beqEntries : List (Entry Value) → List (Entry Value) → Bool
  | [], _ => true
  | ⟨hash, key, value⟩ :: es, fs =>
    (match fs.find? fun f => hash == f.hash && beq key f.key with
      | some f => beq value f.value
      | Option.none => false) && beqEntries es fs

end

instance : BEq Value := ⟨beq⟩

end DynamicValues.Value
