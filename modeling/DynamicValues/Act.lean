import DynamicValues.Edit
import DynamicValues.Run

/-!
Changes of a receiver that may also use the store. As for changes of the receiver alone, what was done before
a failure stays done, to both.
-/

set_option autoImplicit false

namespace DynamicValues

abbrev Act (ε ρ : Type) := ExceptT ε (StateM (ρ × Store))

namespace Act

variable {ε ρ τ α : Type}

def receiver : Act ε ρ ρ := return (← get).1

/-- A computation over the store, which leaves the receiver alone. -/
def aside (m : ExceptT ε (StateM Store) α) : Act ε ρ α := fun state =>
  let (outcome, store) := m.run.run state.2
  (outcome, state.1, store)

/-- A change of the receiver, which leaves the store alone. -/
def edit (m : Edit ρ α) : Act Error ρ α := fun state =>
  let (outcome, receiver) := m.run.run state.1
  (outcome, receiver, state.2)

/-- A change of what is inside the receiver. It is put back whatever the outcome. -/
def within (inner : τ) (wrap : τ → ρ) (m : Act ε τ α) : Act ε ρ α := fun state =>
  let (outcome, inner, store) := m.run.run (inner, state.2)
  (outcome, wrap inner, store)

instance : MonadLift (ExceptT ε (StateM Store)) (Act ε ρ) := ⟨aside⟩

instance : MonadLift (Edit ρ) (Act Error ρ) := ⟨edit⟩

end Act
end DynamicValues
