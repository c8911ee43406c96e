import DynamicValues.Collect
import DynamicValues.Proofs.Run

/-!
What a walk to the end does: it sees the items that the cursor has left, in order, and skips exactly those.
All other cursors stay. This holds of every store, since a cursor that was never made has no items left.
-/

set_option autoImplicit false

namespace DynamicValues

namespace Store

variable {s : Store} {i j : Nat}

/-- The store with a cursor moved past its next `n` items. -/
def skip (s : Store) (i n : Nat) : Store :=
  ⟨s.cursors.modify i fun c => ⟨c.items, c.position + n⟩, s.storages⟩

@[simp] theorem skip_zero (s : Store) (i : Nat) : s.skip i 0 = s := by
  have same : s.cursors.modify i (fun c => ⟨c.items, c.position + 0⟩) = s.cursors := by
    apply Array.ext_getElem?
    intro j
    rw [Array.getElem?_modify]
    split <;> simp
  rw [skip, same]

theorem skip_skip (s : Store) (i m n : Nat) : (s.skip i m).skip i n = s.skip i (m + n) := by
  have same : (s.skip i m).cursors.modify i (fun c => ⟨c.items, c.position + n⟩) =
      s.cursors.modify i fun c => ⟨c.items, c.position + (m + n)⟩ := by
    apply Array.ext_getElem?
    intro j
    rw [skip, Array.getElem?_modify, Array.getElem?_modify, Array.getElem?_modify]
    split <;> simp [Function.comp_def, Nat.add_assoc]
  rw [skip, same]
  rfl

@[simp] theorem size_skip (s : Store) (i n : Nat) : (s.skip i n).cursors.size = s.cursors.size := by
  simp [skip]

theorem cursor_skip_of_ne (h : i ≠ j) (n : Nat) : (s.skip i n).cursor j = s.cursor j := by
  simp [cursor, skip, Array.getElem?_modify, h]

theorem cursor_skip (made : i < s.cursors.size) (n : Nat) :
    (s.skip i n).cursor i = ⟨(s.cursor i).items, (s.cursor i).position + n⟩ := by
  simp [cursor, skip, Array.getElem_modify, made]

/-- A cursor that moves keeps its items, like all others. -/
theorem items_skip (s : Store) (i n j : Nat) : ((s.skip i n).cursor j).items = (s.cursor j).items := by
  by_cases same : i = j
  · subst same
    by_cases made : i < s.cursors.size
    · rw [cursor_skip made]
    · simp [cursor, made]
  · rw [cursor_skip_of_ne same]

@[simp] theorem rest_skip (s : Store) (i n : Nat) :
    ((s.skip i n).cursor i).rest = (s.cursor i).rest.drop n := by
  by_cases made : i < s.cursors.size
  · rw [cursor_skip made, Cursor.rest, Cursor.rest, List.drop_drop]
  · simp [cursor, made]

theorem advance_of_rest_cons {x : Value} {xs : List Value} (h : (s.cursor i).rest = x :: xs) :
    s.advance i = (some x, s.skip i 1) := by
  have made : i < s.cursors.size := by
    by_contra missing
    simp [cursor, missing] at h
  have moved : s.cursors.setIfInBounds i ⟨(s.cursor i).items, (s.cursor i).position + 1⟩ =
      s.cursors.modify i fun c => ⟨c.items, c.position + 1⟩ := by
    apply Array.ext_getElem?
    intro j
    rw [Array.getElem?_modify, Array.getElem?_setIfInBounds]
    split
    · next same => subst same; simp [made, cursor]
    · rfl
  rw [advance, Cursor.next?_of_rest_cons h]
  dsimp only
  rw [moved]
  rfl

end Store

namespace Run

variable {α β : Type} (i : Nat)

theorem exec_next_bind (f : Option Value → Run β) (s : Store) :
    exec (next i >>= f) s = exec (f (s.advance i).1) (s.advance i).2 := by
  rw [exec_bind]
  rfl

section Fold

variable {f : β → Value → Run β} (item : α → Value) (g : β → α → β)
  (step : ∀ b a, f b (item a) = pure (g b a)) {xs : List α} {s : Store}
  (h : (s.cursor i).rest = xs.map item) (b : β)
include step h

theorem exec_foldLoop : exec (foldLoop i f xs.length b) s = (.ok (xs.foldl g b), s.skip i xs.length) := by
  induction xs generalizing s b with
  | nil => rw [List.length_nil, Store.skip_zero]; rfl
  | cons x xs ih =>
    have later : ((s.skip i 1).cursor i).rest = xs.map item := by simp [h]
    rw [List.length_cons, foldLoop, exec_next_bind, Store.advance_of_rest_cons h]
    dsimp only
    rw [step, pure_bind, ih later, Store.skip_skip, Nat.add_comm 1]
    rfl

/-- A fold without effects on the items that a cursor has left is one over these items. -/
theorem exec_foldCursor_of_rest :
    exec (foldCursor i b f) s = (.ok (xs.foldl g b), s.skip i xs.length) := by
  have rounds : (s.cursor i).remaining = xs.length := by rw [← Cursor.length_rest, h, List.length_map]
  rw [← exec_foldLoop i item g step h b, ← rounds]
  rfl

end Fold

theorem exec_foldCursor (g : β → Value → β) (b : β) (s : Store) :
    exec (foldCursor i b fun b x => pure (g b x)) s =
      (.ok ((s.cursor i).rest.foldl g b), s.skip i (s.cursor i).remaining) := by
  rw [← Cursor.length_rest]
  exact exec_foldCursor_of_rest i id g (fun _ _ => rfl) (List.map_id _).symm b

theorem exec_drain (s : Store) :
    exec (drain i) s = (.ok (s.cursor i).rest, s.skip i (s.cursor i).remaining) := by
  rw [drain, mapCursor, exec_bind]
  simp only [pure_bind]
  rw [exec_foldCursor i (fun ys x => x :: ys)]
  dsimp only
  rw [List.foldl_flip_cons_eq_append, List.append_nil, List.map_id', List.reverse_reverse]
  rfl

theorem exec_list {v : Value} {xs : List Value} {s t : Store} (taken : exec (itemsOf v) s = (.ok xs, t)) :
    exec (list v) s = (.ok (.list xs), t) := by
  rw [list, exec_bind, taken]
  rfl

end Run

end DynamicValues
