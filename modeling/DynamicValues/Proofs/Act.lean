import DynamicValues.Proofs.Run
import DynamicValues.Session.Command

/-!
Acts on a receiver as computations over the store, which give the receiver that a success leaves. What a
failure leaves is another matter: an act is atomic if a failure leaves the receiver as it was. That is so if
nothing is written before the last check, or if what was written is what stood there.
-/

set_option autoImplicit false

namespace DynamicValues

namespace Act

variable {ε ρ τ α β : Type} (r : ρ)

/-- What an act gives and the receiver that it leaves, if it succeeds. -/
def result (m : Act ε ρ α) (r : ρ) : ExceptT ε (StateM Store) (α × ρ) := fun s =>
  ((exec m (r, s)).1.map (·, (exec m (r, s)).2.1), (exec m (r, s)).2.2)

theorem exec_result (m : Act ε ρ α) (s : Store) :
    exec (m.result r) s = ((exec m (r, s)).1.map (·, (exec m (r, s)).2.1), (exec m (r, s)).2.2) := rfl

theorem result_pure (a : α) : result (pure a : Act ε ρ α) r = pure (a, r) := (rfl)

theorem result_throw (e : ε) : result (throw e : Act ε ρ α) r = throw e := (rfl)

theorem result_receiver_bind (f : ρ → Act ε ρ α) : result (receiver >>= f) r = (f r).result r := (rfl)

theorem result_bind (m : Act ε ρ α) (f : α → Act ε ρ β) :
    result (m >>= f) r = m.result r >>= fun p => (f p.1).result p.2 := by
  funext s
  change exec (result (m >>= f) r) s = exec (m.result r >>= fun p => (f p.1).result p.2) s
  rw [exec_bind, exec_result, exec_result, exec_bind]
  rcases exec m (r, s) with ⟨e | a, r', t⟩ <;> rfl

theorem result_aside_bind (m : ExceptT ε (StateM Store) α) (f : α → Act ε ρ β) :
    result (liftM m >>= f) r = m >>= fun a => (f a).result r := by
  funext s
  change exec (result (liftM m >>= f) r) s = exec (m >>= fun a => (f a).result r) s
  have ran : exec (liftM m : Act ε ρ α) (r, s) = ((exec m s).1, r, (exec m s).2) := rfl
  rw [exec_bind, exec_result, exec_bind, ran]
  rcases exec m s with ⟨e | a, t⟩ <;> rfl

theorem result_check_bind (x : Except ε α) (f : α → Act ε ρ β) :
    result (liftM x >>= f) r = liftM x >>= fun a => (f a).result r := by
  cases x <;> rfl

theorem result_edit (m : Edit ρ α) : result (liftM m : Act Error ρ α) r = liftM (m.result r) := rfl

theorem result_within (inner : τ) (wrap : τ → ρ) (m : Act ε τ α) :
    result (within inner wrap m) r = (do
      let p ← m.result inner
      return (p.1, wrap p.2)) := by
  funext s
  change exec (result (within inner wrap m) r) s = exec (m.result inner >>= fun p => pure (p.1, wrap p.2)) s
  have ran : exec (within inner wrap m) (r, s) =
      ((exec m (inner, s)).1, wrap (exec m (inner, s)).2.1, (exec m (inner, s)).2.2) := rfl
  rw [exec_bind, exec_result, exec_result, ran]
  rcases exec m (inner, s) with ⟨e | a, t, s'⟩ <;> rfl

/-- The receiver that an act leaves, if it succeeds. -/
def on (m : Act ε ρ α) (r : ρ) : ExceptT ε (StateM Store) ρ := do return (← m.result r).2

theorem on_receiver_bind (f : ρ → Act ε ρ α) : on (receiver >>= f) r = (f r).on r := (rfl)

theorem on_aside_bind (m : ExceptT ε (StateM Store) α) (f : α → Act ε ρ β) :
    on (liftM m >>= f) r = m >>= fun a => (f a).on r := by
  rw [on, result_aside_bind, bind_assoc]
  rfl

theorem on_check_bind (x : Except ε α) (f : α → Act ε ρ β) :
    on (liftM x >>= f) r = liftM x >>= fun a => (f a).on r := by
  cases x <;> rfl

theorem on_edit (m : Edit ρ α) : on (liftM m : Act Error ρ α) r = liftM (m.on r) := by
  rw [on, result_edit, Edit.on]
  cases m.result r <;> rfl

theorem on_within (inner : τ) (wrap : τ → ρ) (m : Act ε τ α) :
    on (within inner wrap m) r = do return wrap (← m.on inner) := by
  rw [on, result_within, on, bind_assoc, bind_assoc]
  rfl

theorem on_within_edit (inner : τ) (wrap : τ → ρ) (m : Edit τ α) :
    on (within inner wrap (liftM m : Act Error τ α)) r = (do return wrap (← m.on inner) : Run ρ) := by
  rw [on_within, on_edit]

section Faults

theorem result_lift (m : Act Error ρ α) : result (liftM m : Act Fault ρ α) r = liftM (m.result r) := by
  funext s
  change exec (result (liftM m : Act Fault ρ α) r) s = exec (liftM (m.result r) : Eval (α × ρ)) s
  have ran : exec (liftM m : Act Fault ρ α) (r, s) =
      ((exec m (r, s)).1.mapError Fault.error, (exec m (r, s)).2) := rfl
  have ran' : exec (liftM (m.result r) : Eval (α × ρ)) s =
      ((exec (m.result r) s).1.mapError Fault.error, (exec (m.result r) s).2) := rfl
  rw [ran', exec_result, exec_result, ran]
  rcases exec m (r, s) with ⟨e | a, t⟩ <;> rfl

theorem result_act_bind (m : Act Error ρ α) (f : α → Act Fault ρ β) :
    result (liftM m >>= f) r = liftM (m.result r) >>= fun p => (f p.1).result p.2 := by
  rw [result_bind, result_lift]

theorem result_edit_bind (m : Edit ρ α) (f : α → Act Fault ρ β) :
    result (liftM m >>= f) r = liftM (m.result r) >>= fun p => (f p.1).result p.2 :=
  result_act_bind r (liftM m : Act Error ρ α) f

theorem result_run_bind (m : Run α) (f : α → Act Fault ρ β) :
    result (liftM m >>= f) r = liftM m >>= fun a => (f a).result r :=
  result_aside_bind r (liftM m : Eval α) f

theorem result_except_bind (x : Except Error α) (f : α → Act Fault ρ β) :
    result (liftM x >>= f) r = liftM x >>= fun a => (f a).result r := by
  cases x <;> rfl

/-- A change with a fixed reply. -/
theorem result_edit_then (m : Edit ρ PUnit) (b : β) :
    result (do liftM m; return b : Act Fault ρ β) r = (do return (b, ← m.on r) : Eval (β × ρ)) := by
  rw [result_edit_bind, Edit.on]
  cases m.result r <;> rfl

theorem result_eval_bind (m : Eval α) (f : α → Act Fault ρ β) :
    result (liftM m >>= f) r = m >>= fun a => (f a).result r :=
  result_aside_bind r m f

end Faults

end Act
end DynamicValues
