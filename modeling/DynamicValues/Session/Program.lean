import DynamicValues.Session.Command
import DynamicValues.Session.Literal

/-!
Programs: calls that run one after the other over shared variables. A call that fails does not stop the
program.
-/

set_option autoImplicit false

namespace DynamicValues

inductive Request where
  | query (q : Query) (operands : List Literal)
  | command (c : Command) (operands : List Literal)
  | fromHost (h : Host)
  | readConfig (h : Host)

/-- A request, and the variable that takes over the value it answers. -/
structure Call where
  request : Request
  target : Option String

structure Answer where
  outcome : Except Failure (Reply View)
  /-- The receiver of a command afterwards. -/
  receiver : Option View
  /-- The watched variables afterwards. -/
  watched : List (Option View)

structure Session where
  store : Store
  vars : Variables

namespace Session

def empty : Session := ⟨.empty, []⟩

/-- The outcome of a computation and the session after it. -/
def eval {α : Type} (s : Session) (m : Eval α) : Except Fault α × Session :=
  let (outcome, store) := m.run.run s.store
  (outcome, ⟨store, s.vars⟩)

def assign (s : Session) (name : String) (v : Value) : Session := ⟨s.store, (name, v) :: s.vars⟩

/-- The outcome of a change of a receiver, the receiver after it, and the session after it. -/
def change {α : Type} (s : Session) (v : Value) (m : Act Fault Value α) : Except Fault α × Value × Session :=
  let (outcome, v, store) := m.run.run (v, s.store)
  (outcome, v, ⟨store, s.vars⟩)

/-- The session with the receiver put back into the variable that it came from. -/
def putBack (s : Session) (v : Value) : Literal → Session
  | .var name => ⟨s.store, s.vars.replace name v⟩
  | _ => s

/-- The outcome of a request, the receiver if there is one, and the session afterwards. -/
def perform (s : Session) : Request → Except Fault (Reply Value) × Option Value × Session
  | .query q operands =>
    let (outcome, s) := s.eval do q.run (← Literal.evalItems s.vars operands)
    (outcome, none, s)
  | .command c operands =>
    let (operandValues, s) := s.eval (Literal.evalItems s.vars operands)
    match operandValues, operands with
    | .error fault, _ => (.error fault, none, s)
    | .ok (v :: rest), origin :: _ =>
      let (outcome, v, s) := s.change v (c.act rest)
      (outcome, some v, s.putBack v origin)
    | .ok _, _ => (.error .malformed, none, s)
  | .fromHost h => (.ok (.value h.toValue), none, s)
  | .readConfig h =>
    match Config.ofHost? h with
    | some c => (.ok (.config c), none, s)
    | none => (.error .badConfig, none, s)

/-- The session with a reply taken over by a variable. -/
def take (s : Session) (target : Option String) (outcome : Except Fault (Reply Value)) : Session :=
  match target, outcome with
  | some name, .ok reply => reply.value?.elim s (s.assign name)
  | _, _ => s

def step (watch : List String) (s : Session) (call : Call) : Answer × Session :=
  let (outcome, receiver, s) := s.perform call.request
  let s := s.take call.target outcome
  let answer : Answer := {
    outcome := (outcome.mapError (·.report s.store)).map (·.view s.store)
    receiver := receiver.map (·.view s.store)
    watched := watch.map fun name => (s.vars.lookup name).map (·.view s.store) }
  (answer, s)

def run (watch : List String) (s : Session) : List Call → List Answer × Session
  | [] => ([], s)
  | call :: calls =>
    let (answer, s) := s.step watch call
    let (answers, s) := s.run watch calls
    (answer :: answers, s)

end Session
end DynamicValues
