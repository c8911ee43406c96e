import DynamicValues.Proofs.Searches
import DynamicValues.Proofs.SliceEdits

/-!
Commands of lists in terms of indices and slices. An index of an item names one position, or none, to all commands
that take one. An index to insert at is resolved as a bound of a slice, so that an insertion is an assignment to an
empty slice; appending and extending are the same at the end.
-/

set_option autoImplicit false

namespace DynamicValues

theorem Slice.resolveBound_end {len : Nat} (small : (len : Int) < Word.limit) :
    resolveBound (some (Int64.ofNat len)) len 0 0 = len := by
  have bound := resolveBound_some (Int64.ofNat len) 0 0 small
  rw [Word.toInt_ofNat small] at bound
  omega

namespace Sequence

variable {α : Type} {i : Int64} {len p : Nat}

theorem lt_of_position? (h : position? i len = some p) : p < len := by
  unfold position? at h
  dsimp only at h
  split at h
  · cases h
    omega
  · cases h

theorem position?_of_wrap (wrapped : Slice.wrap i len = p) (inside : p < len) : position? i len = some p := by
  rw [position?, wrapped, if_pos (by omega), Int.toNat_natCast]

theorem position?_ofNat (inside : p < len) (small : (p : Int) < Word.limit) :
    position? (Int64.ofNat p) len = some p := by
  refine position?_of_wrap ?_ inside
  rw [Slice.wrap, Word.toInt_ofNat small, if_neg (by omega)]

theorem position?_last (len : Nat) : position? (-1) (len + 1) = some len := by
  have minus : (-1 : Int64).toInt = -1 := rfl
  refine position?_of_wrap ?_ (Nat.lt_succ_self len)
  rw [Slice.wrap, minus, if_pos (by decide)]
  omega

/-- An index names an item or there is none for it. -/
theorem exists_of_position? (xs : List α) (i : Int64) :
    position? i xs.length = none ∨ ∃ before x after, xs = before ++ x :: after ∧
      position? i (before ++ x :: after).length = some before.length := by
  cases h : position? i xs.length with
  | none => exact .inl rfl
  | some p =>
    have inside := lt_of_position? h
    have parts : xs = xs.take p ++ xs[p] :: xs.drop (p + 1) := by simp
    refine .inr ⟨_, _, _, parts, ?_⟩
    rw [← parts, h, List.length_take_of_le (Nat.le_of_lt inside)]

theorem get_of_position? {before after : List α} {x : α}
    (h : position? i (before ++ x :: after).length = some before.length) (kind : Kind) :
    get kind (before ++ x :: after) i = .ok x := by
  rw [get, h, Option.bind_some, List.getElem?_append_right (Nat.le_refl _), Nat.sub_self, List.getElem?_cons_zero]

theorem get_of_position?_eq_none {xs : List α} (h : position? i xs.length = none) (kind : Kind) :
    get kind xs i = .error (.indexOutOfRange kind) := by
  rw [get, h]
  rfl

end Sequence

namespace Items

variable {xs : List Value} {i : Int64}

section Named

variable {before after : List Value} {x : Value}
  (h : Sequence.position? i (before ++ x :: after).length = some before.length)
include h

theorem delete_of_position? : delete (before ++ x :: after) i = .ok (before ++ after) := by
  rw [delete_eq, position, h, ← eraseIdx_length before x after]
  rfl

theorem popAt_of_position? : popAt (before ++ x :: after) i = .ok (x, before ++ after) := by
  rw [popAt_eq, h, ← eraseIdx_length before x after]
  simp

end Named

theorem delete_of_position?_eq_none (h : Sequence.position? i xs.length = none) :
    delete xs i = .error .assignmentOutOfRange := by
  rw [delete_eq, position, h]
  rfl

theorem popAt_eq_ok_iff {x : Value} {ys : List Value} (kind : Kind) :
    popAt xs i = .ok (x, ys) ↔ Sequence.get kind xs i = .ok x ∧ delete xs i = .ok ys := by
  rcases Sequence.exists_of_position? xs i with missing | ⟨before, y, after, rfl, named⟩
  · rw [Sequence.get_of_position?_eq_none missing, popAt_eq, missing]
    cases xs <;> simp
  · rw [Sequence.get_of_position? named, delete_of_position? named, popAt_of_position? named]
    simp

theorem exists_get_iff (kind : Kind) : (∃ x, Sequence.get kind xs i = .ok x) ↔ ∃ ys, delete xs i = .ok ys := by
  rcases Sequence.exists_of_position? xs i with missing | ⟨before, y, after, rfl, named⟩
  · rw [Sequence.get_of_position?_eq_none missing, delete_of_position?_eq_none missing]
    simp
  · rw [Sequence.get_of_position? named, delete_of_position? named]
    simp

theorem pop_eq_popAt (xs : List Value) : pop xs = popAt xs (-1) := by
  rcases List.eq_nil_or_concat xs with rfl | ⟨before, x, rfl⟩
  · rfl
  · have last : Sequence.position? (-1) (before ++ [x]).length = some before.length := by
      rw [List.length_append]
      exact Sequence.position?_last before.length
    rw [List.concat_eq_append, popAt_of_position? last, pop_eq, List.getLast?_concat, List.dropLast_concat,
      List.append_nil]
    rfl

theorem remove_eq_delete {x : Value} {p : Nat} (small : (xs.length : Int) < Word.limit)
    (found : Sequence.find? xs x none none = some p) :
    ∃ ys, remove xs x = .ok ys ∧ delete xs (Int64.ofNat p) = .ok ys := by
  obtain ⟨before, y, after, rfl, rfl, -, -⟩ := Sequence.exists_of_find? found
  have inside : before.length < (before ++ y :: after).length := by simp
  refine ⟨before ++ after, ?_, delete_of_position? (Sequence.position?_ofNat inside (by omega))⟩
  rw [remove_eq, found, ← eraseIdx_length before y after]
  rfl

section Bounds

variable (small : (xs.length : Int) < Word.limit)
include small

/-- The position to insert at is the one where a slice from the index begins. -/
theorem insert_eq (i : Int64) (v : Value) :
    insert xs i v = xs.take (Slice.resolveBound (some i) xs.length 0 0) ++
      v :: xs.drop (Slice.resolveBound (some i) xs.length 0 0) := by
  have same : min (Slice.wrap i xs.length).toNat xs.length = Slice.resolveBound (some i) xs.length 0 0 := by
    have bound := Slice.resolveBound_some i 0 0 small
    rw [← Slice.wrap] at bound
    omega
  rw [insert, same]

theorem insert_length (v : Value) : insert xs (Int64.ofNat xs.length) v = xs ++ [v] := by
  rw [insert_eq small, Slice.resolveBound_end small, List.take_length, List.drop_length]

/-- Taking out what was inserted restores the list. -/
theorem popAt_insert (i : Int64) (v : Value) :
    popAt (insert xs i v) (Int64.ofNat (Slice.resolveBound (some i) xs.length 0 0)) = .ok (v, xs) := by
  rw [insert_eq small]
  have within : Slice.resolveBound (some i) xs.length 0 0 ≤ xs.length := Slice.resolveBound_le _ (Nat.zero_le _)
  generalize Slice.resolveBound (some i) xs.length 0 0 = p at within ⊢
  have front : (xs.take p).length = p := List.length_take_of_le within
  have inside : p < (xs.take p ++ v :: xs.drop p).length := by
    rw [List.length_append, List.length_cons, front]
    omega
  have named := Sequence.position?_ofNat inside (by omega)
  rw [popAt_of_position? (named.trans (congrArg some front.symm)), List.take_append_drop]

end Bounds
end Items

/-- By steps of minus one from the last position, all positions. -/
theorem Strides.range_reverse (n : Nat) : Strides (-1) (-1) ((n : Int) - 1) ((List.range n).reverse.map Int.ofNat) := by
  induction n with
  | zero => exact .done (by simp [Short])
  | succ n ih =>
    have here : ((n + 1 : Nat) : Int) - 1 = n := by omega
    rw [List.range_succ, List.reverse_append, List.reverse_singleton, List.singleton_append, List.map_cons, here]
    exact .more (by rw [Short, if_neg (by decide)]; omega) ih

theorem Sequence.slice_reverse {xs : List Value} (small : (xs.length : Int) ≤ Int64.maxValue.toInt) :
    slice xs ⟨none, none, some (-1)⟩ = .ok xs.reverse := by
  obtain ⟨r, resolves⟩ := Slice.exists_resolves (s := ⟨none, none, some (-1)⟩) (by decide) small
  have backwards : r.positions = (List.range' 0 xs.length).reverse := by
    rw [← List.range_eq_range']
    exact (List.map_inj_right fun _ _ => Int.ofNat.inj).1 (resolves.selects.unique (Strides.range_reverse xs.length))
  rw [slice_of_resolves resolves, backwards, pick_eq_filterMap, List.filterMap_reverse, ← pick_eq_filterMap,
    pick_range', List.drop_zero, List.take_length]

section Outcome

variable {α β : Type} {m : Except Error α} {f : α → β} {s t : Store}

/-- What is checked without the store leaves it alone. -/
theorem Eval.exec_checked_eq_ok_iff {b : β} :
    exec (do return f (← m) : Eval β) s = (.ok b, t) ↔ t = s ∧ ∃ a, m = .ok a ∧ f a = b := by
  cases m with
  | error e => exact ⟨nofun, nofun⟩
  | ok a =>
    constructor
    · rintro ⟨⟩
      exact ⟨rfl, a, rfl, rfl⟩
    · rintro ⟨rfl, _, ⟨⟩, rfl⟩
      rfl

theorem Eval.exec_checked_eq_error_iff :
    (∃ e, exec (do return f (← m) : Eval β) s = (.error e, s)) ↔ ∃ e, m = .error e := by
  cases m with
  | error e => exact ⟨fun _ => ⟨e, rfl⟩, fun _ => ⟨.error e, rfl⟩⟩
  | ok a =>
    constructor
    · rintro ⟨e, ⟨⟩⟩
    · rintro ⟨e, ⟨⟩⟩

theorem Eval.exec_of_ok {run : Run α} {a : α} (h : exec run s = (.ok a, t)) (f : α → β) :
    exec (do return f (← run) : Eval β) s = (.ok (f a), t) := by
  rw [exec_bind, Eval.exec_lift, h]
  rfl

theorem Eval.exec_of_error {run : Run α} {e : Error} (h : exec run s = (.error e, t)) (f : α → β) :
    exec (do return f (← run) : Eval β) s = (.error (.error e), t) := by
  rw [exec_bind, Eval.exec_lift, h]
  rfl

end Outcome

namespace ListCommand

variable {xs ys : List Value} {i : Int64} {s t : Store}

theorem run_popAt (xs : List Value) (i : Int64) : popAt.run xs [.int i] = (do
    let taken ← Items.popAt xs i
    return (.value taken.1, taken.2)) :=
  Act.result_edit_bind xs (ListEdit.popAt i) _

theorem run_deleteItem (xs : List Value) (i : Int64) :
    deleteItem.run xs [.int i] = do return (.none, ← Items.delete xs i) :=
  Act.result_edit_then xs (ListEdit.delete i) _

theorem run_remove (xs : List Value) (v : Value) : remove.run xs [v] = do return (.none, ← Items.remove xs v) :=
  Act.result_edit_then xs (ListEdit.remove v) _

theorem exec_pop_eq_popAt (xs : List Value) (s : Store) :
    exec (pop.run xs []) s = exec (popAt.run xs [.int (-1)]) s := by
  have popped : pop.run xs [] = (do
      let taken ← Items.pop xs
      return (.value taken.1, taken.2)) := Act.result_edit_bind xs ListEdit.pop _
  rw [popped, Items.pop_eq_popAt, run_popAt]

theorem exec_popAt_eq_ok_iff {r : Reply Value × List Value} :
    exec (popAt.run xs [.int i]) s = (.ok r, t) ↔
      t = s ∧ ∃ taken, Items.popAt xs i = .ok taken ∧ (Reply.value taken.1, taken.2) = r := by
  rw [run_popAt]
  exact Eval.exec_checked_eq_ok_iff (f := fun taken : Value × List Value => (Reply.value taken.1, taken.2))

theorem exec_deleteItem_eq_ok_iff :
    exec (deleteItem.run xs [.int i]) s = (.ok (.none, ys), s) ↔ Items.delete xs i = .ok ys := by
  rw [run_deleteItem, Eval.exec_checked_eq_ok_iff]
  simp

theorem exec_remove_eq_ok_iff {v : Value} :
    exec (remove.run xs [v]) s = (.ok (.none, ys), s) ↔ Items.remove xs v = .ok ys := by
  rw [run_remove, Eval.exec_checked_eq_ok_iff]
  simp

section Bounds

variable (small : (xs.length : Int) < Word.limit)
include small

/-- Both take the items of the value, and both refuse a value that has none. -/
theorem exec_extend_eq_setSlice (w : Value) (s : Store) :
    exec (extend.run xs [w]) s =
      exec (setSlice.run xs [.slice ⟨some (Int64.ofNat xs.length), none, none⟩, w]) s := by
  cases items : w.items? s with
  | none =>
    have absent := Value.walkable_of_items?_eq_none items
    have refused : exec (Run.itemsOf w) s = (.error (.notIterable w.kind), s) := by
      rw [Run.itemsOf, exec_bind, Run.exec_cursorOf_of_not_walkable absent]
    have refused' := Value.exec_assignSlice_of_not_walkable absent xs ⟨some (Int64.ofNat xs.length), none, none⟩ s
    rw [run_extend, Eval.exec_of_error refused fun items => (Reply.none, xs ++ items), exec_setSlice, refused']
    rfl
  | some vs =>
    obtain ⟨i, t, enters⟩ := Value.exists_enters items
    have resolved : Slice.resolve ⟨some (Int64.ofNat xs.length), none, none⟩ xs.length =
        .ok ⟨Slice.resolveBound (some (Int64.ofNat xs.length)) xs.length 0 0, xs.length, 1⟩ := rfl
    rw [Slice.resolveBound_end small] at resolved
    have assigned := enters.exec_assignSlice resolved
    rw [Items.assign_of_unit rfl, List.take_length, Nat.max_self, List.drop_length, List.append_nil] at assigned
    rw [run_extend, Eval.exec_of_ok enters.exec_itemsOf fun items => (Reply.none, xs ++ items), exec_setSlice, assigned]
    rfl

/-- A single item takes the place of an empty slice, which is where it would be inserted. -/
theorem exec_setSlice_of_singleton {v w : Value} (items : w.items? s = some [v]) (i : Int64) :
    ∃ t, s.Consumed w t ∧ exec (setSlice.run xs [.slice ⟨some i, some i, none⟩, w]) s =
      (.ok (.none, Items.insert xs i v), t) := by
  obtain ⟨j, t, enters⟩ := Value.exists_enters items
  have resolved : Slice.resolve ⟨some i, some i, none⟩ xs.length =
      .ok ⟨Slice.resolveBound (some i) xs.length 0 0, Slice.resolveBound (some i) xs.length 0 0, 1⟩ := rfl
  have assigned := enters.exec_assignSlice resolved
  rw [Items.assign_of_unit rfl, Nat.max_self, List.append_assoc, List.singleton_append, ← Items.insert_eq small]
    at assigned
  refine ⟨_, enters.consumed, ?_⟩
  rw [exec_setSlice, assigned]
  rfl

end Bounds
end ListCommand

/-- Commands of a list in terms of others. Inserting a value is assigning it to the empty slice at the index, and what
was inserted can be taken out at the position that the index was clamped to. Appending is inserting at the end,
extending is assigning to the slice that begins there, and reversing is selecting by steps of minus one. Popping is
taking out the item of index minus one. Taking out an item reads it and deletes it, and can be done exactly if both
can. Removing a value deletes the item at which it is found, and fails exactly if it is not. The length of a list is
a word, as that of every list in memory. -/
theorem list_commands_agree (xs : List Value) (small : (xs.length : Int) ≤ Int64.maxValue.toInt) (s : Store) :
    (∀ (i : Int64) (v : Value), ∃ (p : Nat) (ys : List Value), (p : Int) = Slice.clamp xs.length 1 i.toInt ∧
      exec (ListCommand.insert.run xs [.int i, v]) s = (.ok (.none, ys), s) ∧
      (∀ w, w.items? s = some [v] → ∃ t, s.Consumed w t ∧
        exec (ListCommand.setSlice.run xs [.slice ⟨some i, some i, none⟩, w]) s = (.ok (.none, ys), t)) ∧
      exec (ListCommand.popAt.run ys [.int (Int64.ofNat p)]) s = (.ok (.value v, xs), s)) ∧
    (∀ v, exec (ListCommand.append.run xs [v]) s =
      exec (ListCommand.insert.run xs [.int (Int64.ofNat xs.length), v]) s) ∧
    (∀ w, exec (ListCommand.extend.run xs [w]) s =
      exec (ListCommand.setSlice.run xs [.slice ⟨some (Int64.ofNat xs.length), none, none⟩, w]) s) ∧
    (∃ ys, Sequence.slice xs ⟨none, none, some (-1)⟩ = .ok ys ∧
      exec (ListCommand.reverse.run xs []) s = (.ok (.none, ys), s)) ∧
    exec (ListCommand.pop.run xs []) s = exec (ListCommand.popAt.run xs [.int (-1)]) s ∧
    (∀ i, (∀ r t, exec (ListCommand.popAt.run xs [.int i]) s = (.ok r, t) ↔
        ∃ x ys, r = (.value x, ys) ∧ t = s ∧ Sequence.get .list xs i = .ok x ∧
          exec (ListCommand.deleteItem.run xs [.int i]) s = (.ok (.none, ys), s)) ∧
      ((∃ x, Sequence.get .list xs i = .ok x) ↔
        ∃ ys, exec (ListCommand.deleteItem.run xs [.int i]) s = (.ok (.none, ys), s))) ∧
    ∀ v, (∀ p, Sequence.find .list xs v none none = .ok p → ∃ ys,
        exec (ListCommand.remove.run xs [v]) s = (.ok (.none, ys), s) ∧
        exec (ListCommand.deleteItem.run xs [.int (Int64.ofNat p)]) s = (.ok (.none, ys), s)) ∧
      ((∃ e, exec (ListCommand.remove.run xs [v]) s = (.error e, s)) ↔
        ∃ e, Sequence.find .list xs v none none = .error e) := by
  have below : (xs.length : Int) < Word.limit := Int.lt_of_le_of_lt small (by decide)
  refine ⟨?_, ?_, ?_, ⟨_, Sequence.slice_reverse small, rfl⟩, ?_, ?_, ?_⟩
  · intro i v
    have clamped : (Slice.resolveBound (some i) xs.length 0 0 : Int) = Slice.clamp xs.length 1 i.toInt :=
      Slice.resolveBound_forward (some i) Int.one_pos below
    refine ⟨_, _, clamped, rfl, ?_, ?_⟩
    · intro w items
      exact ListCommand.exec_setSlice_of_singleton below items i
    · exact ListCommand.exec_popAt_eq_ok_iff.2 ⟨rfl, _, Items.popAt_insert below i v, rfl⟩
  · intro v
    have inserted := Items.insert_length below v
    exact congrArg (fun ys => (Except.ok (Reply.none, ys), s)) inserted.symm
  · intro w
    exact ListCommand.exec_extend_eq_setSlice below w s
  · exact ListCommand.exec_pop_eq_popAt xs s
  · intro i
    constructor
    · intro r t
      rw [ListCommand.exec_popAt_eq_ok_iff]
      constructor
      · rintro ⟨rfl, ⟨x, ys⟩, taken, rfl⟩
        obtain ⟨got, deleted⟩ := (Items.popAt_eq_ok_iff .list).1 taken
        exact ⟨x, ys, rfl, rfl, got, ListCommand.exec_deleteItem_eq_ok_iff.2 deleted⟩
      · rintro ⟨x, ys, rfl, rfl, got, deleted⟩
        have deleted := ListCommand.exec_deleteItem_eq_ok_iff.1 deleted
        exact ⟨rfl, (x, ys), (Items.popAt_eq_ok_iff .list).2 ⟨got, deleted⟩, rfl⟩
    · simp only [ListCommand.exec_deleteItem_eq_ok_iff]
      exact Items.exists_get_iff .list
  · intro v
    constructor
    · intro p found
      obtain ⟨ys, removed, deleted⟩ := Items.remove_eq_delete below (Sequence.find_eq_ok_iff.1 found)
      exact ⟨ys, ListCommand.exec_remove_eq_ok_iff.2 removed, ListCommand.exec_deleteItem_eq_ok_iff.2 deleted⟩
    · rw [ListCommand.run_remove, Eval.exec_checked_eq_error_iff, Items.remove_eq]
      simp only [Sequence.find_eq_error_iff]
      cases Sequence.find? xs v none none <;> simp

/-- Inserted at the least index there is, a value comes first, where an assignment to the slice between that index and
itself puts it too. Taking out the last item and reading it give the same, and removing one deletes the truth value
that is equal to it. -/
theorem chorus_rearranged :
    (∃ t, exec (ListCommand.setSlice.run Chorus.items
        [.slice ⟨some Int64.minValue, some Int64.minValue, none⟩, .list [.int 0]]) .empty =
      (.ok (.none, .int 0 :: Chorus.items), t)) ∧
      exec (ListCommand.popAt.run (.int 0 :: Chorus.items) [.int 0]) .empty =
        (.ok (.value (.int 0), Chorus.items), .empty) ∧
      Sequence.get .list Chorus.items (-1) = .ok .none ∧
      exec (ListCommand.pop.run Chorus.items []) .empty = exec (ListCommand.popAt.run Chorus.items [.int (-1)]) .empty ∧
      ∃ ys, exec (ListCommand.remove.run Chorus.items [.int 1]) .empty = (.ok (.none, ys), .empty) ∧
        exec (ListCommand.deleteItem.run Chorus.items [.int 0]) .empty = (.ok (.none, ys), .empty) := by
  obtain ⟨inserted, -, -, -, popped, taken, removed⟩ := list_commands_agree Chorus.items (by decide) .empty
  obtain ⟨p, ys, clamped, done, assigned, back⟩ := inserted Int64.minValue (.int 0)
  obtain ⟨t, -, put⟩ := assigned (.list [.int 0]) rfl
  obtain rfl : p = 0 := Int.ofNat.inj clamped
  cases done
  obtain ⟨x, zs, same, -, read, -⟩ := ((taken (-1)).1 _ _).1 rfl
  cases same
  exact ⟨⟨t, put⟩, back, read, popped, (removed (.int 1)).1 0 rfl⟩

end DynamicValues
