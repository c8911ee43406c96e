import DynamicValues.Config
import DynamicValues.Error.Message
import DynamicValues.Run
import DynamicValues.Value.View

/-!
What a call answers, and the ways in which it can fail to answer.
-/

set_option autoImplicit false

namespace DynamicValues

inductive Fault where
  | error (e : Error)
  /-- The value has no JSON text. -/
  | unwritable (e : Error)
  /-- The host value holds no settings. -/
  | badConfig
  /-- The call itself makes no sense. -/
  | malformed

/-- A fault as it is reported. -/
inductive Failure where
  | error (category : Category) (message : String)
  | unwritable (message : String)
  | badConfig
  | malformed

def Error.report (store : Store) (e : Error) : Failure := .error e.category (e.describe store)

def Fault.report (store : Store) : Fault → Failure
  | .error e => e.report store
  | .unwritable e => .unwritable (e.message store)
  | .badConfig => .badConfig
  | .malformed => .malformed

/-- Computations of a session: those over a store, with the faults of calls. -/
abbrev Eval := ExceptT Fault (StateM Store)

instance : MonadLift Run Eval := ⟨ExceptT.adapt Fault.error⟩

instance : MonadLift (Except Error) Eval := ⟨fun x => liftM (liftM x : Run _)⟩

namespace Eval

def store : Eval Store := get

/-- An operand of the right shape, without which the call makes no sense. -/
def expect {α : Type} : Option α → Eval α
  | some a => pure a
  | none => throw .malformed

end Eval

inductive Reply (α : Type) where
  | value (v : α)
  | exhausted
  | absent
  | host (h : Host)
  | indices (r : Indices)
  /-- The results of a function along a walk, and why the walk stopped early. -/
  | seen (results : List View) (failure : Option Failure)
  | config (c : Config)

namespace Reply

def view (store : Store) : Reply Value → Reply View
  | .value v => .value (v.view store)
  | .exhausted => .exhausted
  | .absent => .absent
  | .host h => .host h
  | .indices r => .indices r
  | .seen results failure => .seen results failure
  | .config c => .config c

/-- The value that a variable can take over. -/
def value? : Reply Value → Option Value
  | .value v => some v
  | _ => none

def none : Reply Value := .value .none

def bool (b : Bool) : Reply Value := .value (.bool b)

def nat (n : Nat) : Reply Value := .value (.ofNat n)

def int (n : Int64) : Reply Value := .value (.int n)

def text (t : Text) : Reply Value := .value (.str t)

def list (items : List Value) : Reply Value := .value (.list items)

def ordering : Ordering → Reply Value
  | .lt => .int (-1)
  | .eq => .int 0
  | .gt => .int 1

/-- A position, or minus one. -/
def position : Option Nat → Reply Value
  | some i => .nat i
  | Option.none => .int (-1)

end Reply
end DynamicValues
