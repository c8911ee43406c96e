import DynamicValues.Config
import DynamicValues.Range
import DynamicValues.Subscript

/-!
Collecting the items of values into lists, tuples, dicts and iterators.
-/

set_option autoImplicit false

namespace DynamicValues.Run

def iter (v : Value) : Run Value := do return .iter (← cursorOf v)

def list (v : Value) : Run Value := do return .list (← itemsOf v)

def tuple (v : Value) : Run Value := do newTuple (← itemsOf v)

def sorted (v : Value) : Run Value := do return .list (Items.sort (← itemsOf v))

/-- Sets the binding that an element of a sequence of pairs stands for. -/
def setPair (position : Nat) (d : Dict Value) (pair : Value) : Run (Dict Value) := do
  let i ← tryCatch (cursorOf pair) fun _ => throw (.notPair position pair.kind)
  match ← drain i with
  | [key, v] => d.set key v
  | items => throw (.pairLength position items.length)

/-- The dict of the pairs that a cursor has left. -/
def dictOf (i : Nat) : Run (Dict Value) := do
  let step (state : Nat × Dict Value) (pair : Value) : Run (Nat × Dict Value) :=
    return (state.1 + 1, ← setPair state.1 state.2 pair)
  return (← foldCursor i (0, Dict.empty) step).2

def dict (v : Value) : Run Value := do return .dict (← dictOf (← cursorOf v))

/-- The bindings of a dict as new pairs. -/
def pairs : List (Entry Value) → Run (List Value)
  | [] => return []
  | e :: es => do
    let pair ← newTuple [e.key, e.value]
    return pair :: (← pairs es)

/-- The items as a list or as an iterator, as the settings say. -/
def wrap (config : Config) (items : List Value) : Run Value :=
  if config.python3 then newIter items else return .list items

def progression (r : Range) : Except Error (List Value) :=
  if zero : r.step = 0 then .error .zeroRangeStep else .ok ((r.items zero).map .int)

def range (config : Config) (r : Range) : Run Value := do wrap config (← progression r)

def lazyRange (r : Range) : Run Value := do newIter (← progression r)

def map (config : Config) (f : Value → Run Value) (v : Value) : Run Value := do
  wrap config (← mapCursor (← cursorOf v) f)

end DynamicValues.Run
