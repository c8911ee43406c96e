import DynamicValues.Items
import DynamicValues.Proofs.Dict

/-!
Changes of lists as functions of the items, with what they come to. They and subscripts of sequences give
items that were there, and the new ones.
-/

set_option autoImplicit false

namespace DynamicValues

namespace Sequence

variable {α : Type}

theorem gives_get (kind : Kind) (xs : List α) (i : Int64) : Gives (get kind xs i) (· ∈ xs) := by
  unfold get
  split
  · next x found =>
    obtain ⟨p, -, item⟩ := Option.bind_eq_some_iff.1 found
    exact .ok (List.mem_of_getElem? item)
  · exact .error _

theorem pick_subset (xs : List α) (positions : List Nat) : pick xs positions ⊆ xs := by
  intro x hx
  rw [pick_eq_filterMap] at hx
  obtain ⟨p, -, item⟩ := List.mem_filterMap.1 hx
  exact List.mem_of_getElem? item

theorem pick_append (xs : List α) (ps qs : List Nat) : pick xs (ps ++ qs) = pick xs ps ++ pick xs qs := by
  simp [pick_eq_filterMap]

/-- More items change nothing at positions of the first ones. -/
theorem pick_append_left {xs : List α} {ps : List Nat} (inside : ∀ p ∈ ps, p < xs.length) (ys : List α) :
    pick (xs ++ ys) ps = pick xs ps := by
  rw [pick_eq_filterMap, pick_eq_filterMap]
  exact List.filterMap_congr fun p hp => List.getElem?_append_left (inside p hp)

theorem gives_slice (xs : List α) (s : Slice) : Gives (slice xs s) (· ⊆ xs) :=
  .bind (.anything _) fun r _ => .ok (pick_subset xs r.positions)

end Sequence

/-- Writing cannot fail. -/
theorem ListEdit.run_write (pairs : List (Nat × Value)) (xs : List Value) :
    (write pairs).run.run xs = (.ok (), pairs.foldl (fun items pair => items.set pair.1 pair.2) xs) := by
  induction pairs generalizing xs with
  | nil => rfl
  | cons pair pairs ih => exact ih (xs.set pair.1 pair.2)

namespace Items

variable {w : World} {xs : List Value} {v : Value}

/-- The items with one replaced. -/
def set (xs : List Value) (i : Int64) (v : Value) : Except Error (List Value) := (ListEdit.set i v).on xs

/-- The items without one. -/
def delete (xs : List Value) (i : Int64) : Except Error (List Value) := (ListEdit.delete i).on xs

/-- The items without the first one that is equal to `v`. -/
def remove (xs : List Value) (v : Value) : Except Error (List Value) := (ListEdit.remove v).on xs

/-- The last item and the others. -/
def pop (xs : List Value) : Except Error (Value × List Value) := ListEdit.pop.result xs

/-- The item of index `i` and the others. -/
def popAt (xs : List Value) (i : Int64) : Except Error (Value × List Value) := (ListEdit.popAt i).result xs

/-- The items with values for those of a resolved slice. -/
def assign (xs : List Value) (r : Indices) (values : List Value) : Except Error (List Value) :=
  (ListEdit.assign r values).on xs

/-- The items that a slice does not select. -/
def deleteSlice (xs : List Value) (s : Slice) : Except Error (List Value) := (ListEdit.deleteSlice s).on xs

/-- The items after values have been written at positions, pairwise. -/
def place (xs : List Value) (positions : List Nat) (values : List Value) : List Value :=
  (positions.zip values).foldl (fun items binding => items.set binding.1 binding.2) xs

@[simp] theorem place_nil (xs values : List Value) : place xs [] values = xs := rfl

@[simp] theorem place_cons (xs : List Value) (p : Nat) (positions : List Nat) (v : Value)
    (values : List Value) :
    place xs (p :: positions) (v :: values) = place (xs.set p v) positions values := rfl

section Equations

variable (xs : List Value)

theorem set_eq (i : Int64) (v : Value) : set xs i v = do return xs.set (← position xs i) v :=
  Edit.on_check_bind xs (position xs i) _

theorem delete_eq (i : Int64) : delete xs i = do return xs.eraseIdx (← position xs i) :=
  Edit.on_check_bind xs (position xs i) _

theorem remove_eq (v : Value) :
    remove xs v = (Sequence.find? xs v none none).elim (.error .nothingToRemove) fun p => .ok (xs.eraseIdx p) := by
  rw [remove, ListEdit.remove, Edit.on_get_bind]
  cases Sequence.find? xs v none none <;> rfl

theorem pop_eq : pop xs = xs.getLast?.elim (.error .popFromEmpty) fun v => .ok (v, xs.dropLast) :=
  Edit.result_orFail xs _ _

theorem popAt_eq (i : Int64) :
    popAt xs i = if xs.isEmpty then .error .popFromEmpty else
      ((Sequence.position? i xs.length).bind fun p => xs[p]?.map (·, xs.eraseIdx p)).elim
        (.error .assignmentOutOfRange) .ok := by
  rw [popAt, ListEdit.popAt, Edit.result_get_bind]
  split
  · rfl
  · rw [Edit.result_get_bind, Edit.result_check_bind, position]
    cases Sequence.position? i xs.length with
    | none => rfl
    | some p =>
      change Edit.result (.orFail (modifyGet fun xs => (xs[p]?, xs.eraseIdx p)) .assignmentOutOfRange) xs =
        (xs[p]?.map (·, xs.eraseIdx p)).elim _ _
      rw [Edit.result_orFail]
      cases xs[p]? <;> rfl

theorem assign_eq (r : Indices) (values : List Value) :
    assign xs r values =
      if r.step = 1 then .ok (xs.take r.start ++ values ++ xs.drop (max r.start r.stop))
      else if r.length ≠ values.length then .error (.sizeMismatch values.length r.length)
      else .ok (place xs r.positions values) := by
  unfold assign ListEdit.assign
  split
  · rfl
  split
  · rfl
  · rw [Edit.on, Edit.result, ListEdit.run_write]
    rfl

theorem deleteSlice_eq (s : Slice) : deleteSlice xs s = (do
    let r ← s.resolve xs.length
    if r.step = 1 then return xs.take r.start ++ xs.drop (max r.start r.stop)
    else return dropPositions xs r.positions) := by
  rw [deleteSlice, ListEdit.deleteSlice, Edit.on_get_bind, Edit.on_check_bind]
  congr 1
  funext r
  split <;> rfl

end Equations

theorem sound_set (h : Sound w xs) (hv : v.Sound w) (p : Nat) : Sound w (xs.set p v) := by
  intro x hx
  rcases List.mem_or_eq_of_mem_set hx with old | rfl
  · exact h x old
  · exact hv

theorem sound_insert (h : Sound w xs) (hv : v.Sound w) (i : Int64) : Sound w (insert xs i v) :=
  (h.subset (List.take_subset _ _)).append (.cons hv (h.subset (List.drop_subset _ _)))

theorem sound_place (h : Sound w xs) {values : List Value} (hv : Sound w values) (positions : List Nat) :
    Sound w (place xs positions values) := by
  induction positions generalizing xs values with
  | nil => exact h
  | cons p positions ih =>
    cases values with
    | nil => exact h
    | cons v values =>
      obtain ⟨hv, rest⟩ := List.forall_mem_cons.1 hv
      rw [place_cons]
      exact ih (sound_set h hv p) rest

theorem sound_sort (h : Sound w xs) : Sound w (sort xs) :=
  h.subset (List.mergeSort_perm xs Value.le).subset

theorem gives_set (h : Sound w xs) (hv : v.Sound w) (i : Int64) : Gives (set xs i v) (Sound w) := by
  rw [set_eq]
  exact .bind (.anything _) fun p _ => .ok (sound_set h hv p)

theorem gives_delete (h : Sound w xs) (i : Int64) : Gives (delete xs i) (Sound w) := by
  rw [delete_eq]
  exact .bind (.anything _) fun p _ => .ok (h.subset (List.eraseIdx_sublist xs p).subset)

theorem gives_remove (h : Sound w xs) (v : Value) : Gives (remove xs v) (Sound w) := by
  rw [remove_eq]
  cases Sequence.find? xs v none none with
  | none => exact .error _
  | some p => exact .ok (h.subset (List.eraseIdx_sublist xs p).subset)

theorem gives_pop (h : Sound w xs) : Gives (pop xs) fun r => r.1.Sound w ∧ Sound w r.2 := by
  rw [pop_eq]
  cases last : xs.getLast? with
  | none => exact .error _
  | some v => exact .ok ⟨h v (List.mem_of_getLast? last), h.subset (List.dropLast_subset xs)⟩

theorem gives_popAt (h : Sound w xs) (i : Int64) : Gives (popAt xs i) fun r => r.1.Sound w ∧ Sound w r.2 := by
  rw [popAt_eq]
  split
  · exact .error _
  cases taken : (Sequence.position? i xs.length).bind fun p => xs[p]?.map (·, xs.eraseIdx p) with
  | none => exact .error _
  | some taken =>
    obtain ⟨p, -, item⟩ := Option.bind_eq_some_iff.1 taken
    obtain ⟨v, here, rfl⟩ := Option.map_eq_some_iff.1 item
    exact .ok ⟨h v (List.mem_of_getElem? here), h.subset (List.eraseIdx_sublist xs p).subset⟩

theorem gives_assign (h : Sound w xs) {values : List Value} (hv : Sound w values) (r : Indices) :
    Gives (assign xs r values) (Sound w) := by
  rw [assign_eq]
  split
  · exact .ok (((h.subset (List.take_subset _ _)).append hv).append (h.subset (List.drop_subset _ _)))
  split
  · exact .error _
  · exact .ok (sound_place h hv _)

theorem getD_marks (len : Nat) (positions : List Nat) {p : Nat} (inside : p < len) :
    (marks len positions).getD p false = decide (p ∈ positions) := by
  have marked (doomed : Array Bool) (size : doomed.size = len) :
      (positions.foldl (fun doomed p => doomed.setIfInBounds p true) doomed).getD p false =
        (decide (p ∈ positions) || doomed.getD p false) := by
    induction positions generalizing doomed with
    | nil => simp
    | cons q positions ih =>
      rw [List.foldl_cons, ih _ (by simpa using size)]
      by_cases here : q = p
      · subst here
        simp [size, inside]
      · simp [here, Ne.symm here]
  rw [marks, marked _ (by simp)]
  simp [inside]

/-- A sweep has kept the items at the positions that are not marked, as far as it has come. -/
theorem foldl_past (doomed : Array Bool) (xs : List Value) :
    xs.foldl (Sweep.past doomed) .start =
      ⟨(Sequence.pick xs ((List.range xs.length).filter fun p => !doomed.getD p false)).reverse, xs.length⟩ := by
  induction xs using List.reverseRecOn with
  | nil => rfl
  | append_singleton xs x ih =>
    have inside : ∀ p ∈ (List.range xs.length).filter (fun p => !doomed.getD p false), p < xs.length := by
      intro p hp
      exact List.mem_range.1 (List.mem_of_mem_filter hp)
    rw [List.foldl_concat, ih, List.length_append, List.length_singleton, List.range_succ, List.filter_append,
      Sequence.pick_append, Sequence.pick_append_left inside, Sweep.past]
    cases mark : doomed.getD xs.length false with
    | true =>
      rw [if_pos rfl, List.filter_singleton, mark]
      simp [Sequence.pick]
    | false =>
      rw [List.filter_singleton, mark]
      simp [Sequence.pick_eq_filterMap]

theorem dropPositions_eq (xs : List Value) (positions : List Nat) :
    dropPositions xs positions = Sequence.pick xs ((List.range xs.length).filter (· ∉ positions)) := by
  have unmarked : (List.range xs.length).filter (fun p => !(marks xs.length positions).getD p false) =
      (List.range xs.length).filter (· ∉ positions) := by
    refine List.filter_congr fun p hp => ?_
    rw [getD_marks xs.length positions (List.mem_range.1 hp), decide_not]
  rw [dropPositions, foldl_past, unmarked, List.reverse_reverse]

theorem dropPositions_subset (xs : List Value) (positions : List Nat) : dropPositions xs positions ⊆ xs := by
  rw [dropPositions_eq]
  exact Sequence.pick_subset xs _

theorem gives_deleteSlice (h : Sound w xs) (s : Slice) : Gives (deleteSlice xs s) (Sound w) := by
  rw [deleteSlice_eq]
  refine .bind (.anything _) fun r _ => ?_
  split
  · exact .ok ((h.subset (List.take_subset _ _)).append (h.subset (List.drop_subset _ _)))
  · exact .ok (h.subset (dropPositions_subset xs r.positions))

end Items
end DynamicValues
