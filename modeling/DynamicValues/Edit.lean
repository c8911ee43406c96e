import DynamicValues.Error

/-!
Changes of a receiver. What a change did to its receiver before it failed stays done: to leave the receiver
alone on failure, a change has to make its checks before it writes.
-/

set_option autoImplicit false

namespace DynamicValues

abbrev Edit (ρ : Type) := ExceptT Error (StateM ρ)

namespace Edit

variable {ρ α β : Type}

/-- What a change gives, and an error if that is nothing. -/
def orFail (m : Edit ρ (Option α)) (e : Error) : Edit ρ α := do
  match ← m with
  | some a => return a
  | none => throw e

/-- What a change gives and the receiver that it leaves, if it succeeds. -/
def result (m : Edit ρ α) (r : ρ) : Except Error (α × ρ) :=
  let (outcome, r) := m.run.run r
  outcome.map (·, r)

/-- The receiver that a change leaves, if it succeeds. -/
def on (m : Edit ρ α) (r : ρ) : Except Error ρ := (m.result r).map Prod.snd

section Lemmas

variable (r : ρ)

theorem result_get_bind (f : ρ → Edit ρ α) : result (get >>= f) r = (f r).result r := rfl

theorem result_modifyGet_bind (g : ρ → α × ρ) (f : α → Edit ρ β) :
    result (modifyGet g >>= f) r = (f (g r).1).result (g r).2 := rfl

theorem result_check_bind (x : Except Error α) (f : α → Edit ρ β) :
    result (liftM x >>= f) r = x >>= fun a => (f a).result r := by
  cases x <;> rfl

theorem result_orFail (g : ρ → Option α × ρ) (e : Error) :
    result (orFail (modifyGet g) e) r = (g r).1.elim (.error e) fun a => .ok (a, (g r).2) := by
  rw [orFail, result_modifyGet_bind]
  cases (g r).1 <;> rfl

theorem on_get_bind (f : ρ → Edit ρ α) : on (get >>= f) r = (f r).on r := rfl

theorem on_check_bind (x : Except Error α) (f : α → Edit ρ β) :
    on (liftM x >>= f) r = x >>= fun a => (f a).on r := by
  cases x <;> rfl

end Lemmas
end Edit
end DynamicValues
