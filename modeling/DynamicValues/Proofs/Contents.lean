import DynamicValues.Proofs.Failure

/-!
The items of a value, as a walk of it sees them, and what the walk leaves behind.
-/

set_option autoImplicit false

namespace DynamicValues

/-- The items that a walk of the value sees. Those of an iterator are the ones that it has left. -/
def Value.items? (s : Store) : Value → Option (List Value)
  | .iter i => some (s.cursor i).rest
  | .str t => some (t.letters.map .str)
  | .tuple _ xs => some xs
  | .list xs => some xs
  | .dict d => some d.keys
  | _ => Option.none

theorem Value.items?_list (s : Store) (xs : List Value) : (list xs).items? s = some xs := rfl

/-- A walk of a value with the items `xs` begins: it has a cursor that is about to see them. -/
structure Enters (v : Value) (s : Store) (xs : List Value) (i : Nat) (t : Store) : Prop where
  found : exec (Run.cursorOf v) s = (.ok i, t)
  rest : (t.cursor i).rest = xs
  consumed : s.Consumed v (t.skip i xs.length)

variable {v : Value} {s t : Store} {xs : List Value} {i : Nat}

theorem Value.exists_enters (h : v.items? s = some xs) : ∃ i t, Enters v s xs i t := by
  have fresh (items : List Value) (container : v.kind ≠ .iter) (given : some items = some xs)
      (made : exec (Run.cursorOf v) s = (.ok s.cursors.size, (s.addCursor items).2)) :
      ∃ i t, Enters v s xs i t := by
    obtain rfl := Option.some.inj given
    have unmoved := s.unmoved_addCursor items
    refine ⟨_, _, made, ?_, Store.consumed_of_new unmoved container (Nat.le_refl _) _⟩
    exact congrArg Cursor.rest (s.cursor_addCursor items)
  cases v with
  | iter j =>
    cases h
    refine ⟨j, s, rfl, rfl, ?_⟩
    rw [Cursor.length_rest]
    exact s.consumed_iter j
  | str u => exact fresh _ (by simp [kind]) h rfl
  | tuple j ys => exact fresh _ (by simp [kind]) h rfl
  | list ys => exact fresh _ (by simp [kind]) h rfl
  | dict d => exact fresh _ (by simp [kind]) h rfl
  | _ => cases h

theorem Value.walkable_of_items?_eq_none (absent : v.items? s = Option.none) : v.kind.walkable = false := by
  cases v with
  | str _ | tuple _ _ | list _ | dict _ | iter _ => cases absent
  | _ => rfl

namespace Enters

variable {β : Type} (h : Enters v s xs i t)
include h

/-- A fold without effects over a value is one over its items. -/
theorem exec_fold (g : β → Value → β) (b : β) :
    exec (do Run.foldCursor (← Run.cursorOf v) b fun b x => pure (g b x)) s =
      (.ok (xs.foldl g b), t.skip i xs.length) := by
  rw [exec_bind, h.found]
  dsimp only
  rw [Run.exec_foldCursor, ← Cursor.length_rest, h.rest]

theorem exec_drain : exec (Run.drain i) t = (.ok xs, t.skip i xs.length) := by
  rw [Run.exec_drain, ← Cursor.length_rest, h.rest]

theorem exec_itemsOf : exec (Run.itemsOf v) s = (.ok xs, t.skip i xs.length) := by
  rw [Run.itemsOf, exec_bind, h.found]
  exact h.exec_drain

theorem exec_iter : exec (Run.iter v) s = (.ok (.iter i), t) := by
  rw [Run.iter, exec_bind, h.found]
  rfl

end Enters
end DynamicValues
