import DynamicValues.Proofs.Traversal

/-!
An iterator that is consumed counts as the list of the items that it has left. Whatever walks its operand does so
with a cursor: the one of the iterator, or a new one over the items of a list. The two walks differ in nothing
but the names of the iterators that are made on the way.
-/

set_option autoImplicit false

namespace DynamicValues

/-- The reply with the iterators of its value renamed. What was seen along a walk shows no names. -/
def Reply.rename (ρ : Nat → Nat) : Reply Value → Reply Value
  | .value v => .value (v.rename ρ)
  | r => r

/-- The fault with the iterators of its error renamed. -/
def Fault.rename (ρ : Nat → Nat) : Fault → Fault
  | .error e => .error (e.rename ρ)
  | .unwritable e => .unwritable (e.rename ρ)
  | fault => fault

/-- Calls that take the items of an operand, with their other operands. -/
inductive Consumer where
  | list
  | copy
  | tuple
  | sorted
  | min
  | max
  | sum (start : Value)
  | join (sep : Text)
  | extend (xs : List Value)
  | contains (item : Value)
  | iterate (f : Value → Run Value)
  | map (python3 : Bool) (f : Value → Run Value)

namespace Consumer

/-- All operands, with `v` as the one whose items are taken. -/
def operands (c : Consumer) (v : Value) : List Value :=
  match c with
  | .sum start => [v, start]
  | .join sep => [.str sep, v]
  | .extend xs => [.list xs, v]
  | .contains item => [v, item]
  | _ => [v]

/-- The reply to a query, which has no receiver. -/
def ask (q : Query) (operands : List Value) : Eval (Reply Value × Option Value) := do
  return (← q.run operands, none)

/-- The reply, and the receiver of the call if there is one. -/
def run (c : Consumer) (v : Value) : Eval (Reply Value × Option Value) :=
  match c with
  | .list => ask (.function .list) (c.operands v)
  | .copy => ask (.iter .copy) (c.operands v)
  | .tuple => ask (.function .tuple) (c.operands v)
  | .sorted => ask (.function .sorted) (c.operands v)
  | .min => ask (.function .min) (c.operands v)
  | .max => ask (.function .max) (c.operands v)
  | .sum _ => ask (.function .sum) (c.operands v)
  | .join _ => ask (.text .join) (c.operands v)
  | .extend xs => do
    let (reply, receiver) ← Command.run (.list .extend) (.list xs) [v]
    return (reply, some receiver)
  | .contains _ => ask (.value .contains) (c.operands v)
  | .iterate f => do return (← Eval.iterate f v, none)
  | .map python3 f => do return (.value (← Run.map ⟨python3⟩ f v), none)

/-- The item at which the call stops before the end: one at which it fails, or which it has looked for. -/
def stop? (c : Consumer) (s : Store) (xs : List Value) : Option Nat :=
  match c with
  | .sum start => xs.findIdx? fun x => start.number?.isNone || x.number?.isNone
  | .join _ => xs.findIdx? fun x => x.kind != .str
  | .contains item => xs.findIdx? (· == item)
  | .iterate f => Run.failing? f xs s
  | .map _ f => Run.failing? f xs s
  | _ => none

/-- What a call ends with: the reply and the receiver, or a fault. -/
abbrev Outcome := Except Fault (Reply Value × Option Value)

/-- The outcome with all iterators renamed. -/
def rename (ρ : Nat → Nat) (outcome : Outcome) : Outcome :=
  (outcome.mapError (Fault.rename ρ)).map fun answer => (answer.1.rename ρ, answer.2.map (Value.rename ρ))

/-- The answer to a call that some computation over the store gives. -/
def answered {α : Type} (g : Store → α → Reply Value × Option Value) (ran : Except Error α × Store) :
    Outcome × Store :=
  ((ran.1.mapError Fault.error).map (g ran.2), ran.2)

variable {α : Type} {v : Value} {s : Store}

/-- The reply that reports what was seen. -/
def seen (store : Store) (r : List View × Option Error) : Reply Value × Option Value :=
  (.seen r.1 (r.2.map (·.report store)), none)

end Consumer

namespace Traversal

/-- The answer to a call ends like one without the traversal, up to names. -/
structure Ends (k : Traversal) (c : Cursor) (p q : Consumer.Outcome × Store) : Prop where
  outcome : q.1 = Consumer.rename k.rename p.1
  mirrors : k.Mirrors p.2 q.2
  here : q.2.cursor k.cursor = c

theorem Closes.ends {k : Traversal} {α : Type} {c : Cursor} {rel : α → α → Prop} {p q : Except Error α × Store}
    (closes : k.Closes c rel p q) {g : Store → α → Reply Value × Option Value}
    (hg : ∀ a b, rel a b → .ok (g q.2 b) = Consumer.rename k.rename (.ok (g p.2 a))) :
    k.Ends c (Consumer.answered g p) (Consumer.answered g q) := by
  refine ⟨?_, closes.mirrors, closes.here⟩
  have outcome := closes.outcome
  unfold Consumer.answered
  generalize p.1 = x, q.1 = y at outcome
  cases outcome with
  | ok related => exact hg _ _ related
  | error apart => rfl

variable {k : Traversal} {α : Type} {c : Cursor} {s t : Store} {v : Value} {xs : List Value}

namespace Begins

theorem exec_sorted (begins : k.Begins v c xs s t) :
    exec (Run.sorted v) s = (.ok (.list (Items.sort xs)), t.skip k.cursor xs.length) := by
  rw [Run.sorted, exec_bind, begins.exec_itemsOf]
  rfl

end Begins
end Traversal

namespace Consumer

open Traversal

variable (s : Store) (xs : List Value)

end Consumer

namespace Run

variable {i : Nat}

end Run

namespace Store.Sound

variable {s : Store} {w : World}

theorem below_cursor (hs : s.Sound w) (j : Nat) : ∀ x ∈ (s.cursor j).items, x.Below j :=
  fun x hx => hs.grounded j _ (hs.getElem?_cursors (lt_size_of_mem_items hx)) x hx

end Store.Sound

namespace Traversal

variable {s t : Store} {w : World}

end Traversal

theorem Reply.rename_id (r : Reply Value) : r.rename id = r := by
  cases r with
  | value v => exact congrArg Reply.value v.rename_id
  | _ => rfl

theorem Fault.rename_id (fault : Fault) : fault.rename id = fault := by
  have fixed (e : Error) : e.rename id = e := Error.rename_eq_self fun v _ => v.rename_id
  cases fault with
  | error e => exact congrArg error (fixed e)
  | unwritable e => exact congrArg unwritable (fixed e)
  | _ => rfl

namespace Consumer

open Traversal

theorem rename_id (outcome : Outcome) : Consumer.rename id outcome = outcome := by
  rcases outcome with fault | ⟨reply, receiver⟩
  · exact congrArg Except.error fault.rename_id
  · have receiver_eq : receiver.map (Value.rename id) = receiver := by
      cases receiver with
      | none => rfl
      | some v => exact congrArg some v.rename_id
    exact congrArg Except.ok (Prod.ext reply.rename_id receiver_eq)

end Consumer

/-- The name of an iterator in a run that makes one more cursor before all others. -/
def Store.shift (s : Store) (j : Nat) : Nat := if j < s.cursors.size then j else j + 1

namespace Relay

/-- An iterator over numbers and one over a list, a text, a number and nothing. -/
def program : List Call :=
  [⟨.query .identity [.iter [.int 3, .int 4]], some "numbers"⟩,
    ⟨.query .identity [.iter [.list [.int 1], .str (.ofString "añb"), .int 2, .none]], some "relay"⟩]

def session : Session := (Session.empty.run [] program).2

def numbers : List Value := [.int 3, .int 4]

def items : List Value := [.list [.int 1], .str (.ofString "añb"), .int 2, .none]

/-- Twice a whole number; nothing else can be doubled. -/
def double : Value → Run Value
  | .int n => return .int (2 * n)
  | v => throw (.notAddable v.kind v.kind)

theorem reachable_session : session.Reachable := ⟨[], program, rfl⟩

end Relay

end DynamicValues
