import DynamicValues.Proofs.Contents
import DynamicValues.Proofs.Positions

/-!
Assignments to slices and deletions of slices. With a step of one the window between the bounds gives way as a
whole; with any other step each selected position is written once, since all lie below the length and none comes
twice. A deletion keeps what is not selected.
-/

set_option autoImplicit false

namespace DynamicValues

namespace Sequence

variable {α : Type} {xs : List α} {ps : List Nat}

theorem map_some_pick (inside : ∀ p ∈ ps, p < xs.length) : (pick xs ps).map some = ps.map (xs[·]?) := by
  rw [pick_eq_filterMap]
  induction ps with
  | nil => rfl
  | cons p ps ih =>
    obtain ⟨here, later⟩ := List.forall_mem_cons.1 inside
    rw [List.filterMap_cons_some (List.getElem?_eq_getElem here), List.map_cons, ih later, List.map_cons,
      List.getElem?_eq_getElem here]

theorem length_pick (inside : ∀ p ∈ ps, p < xs.length) : (pick xs ps).length = ps.length := by
  simpa using congrArg List.length (map_some_pick inside)

theorem slice_of_resolves {sl : Slice} {r : Indices} (h : sl.Resolves xs.length r) :
    slice xs sl = .ok (pick xs r.positions) := by
  rw [slice, h.resolved]
  rfl

end Sequence

namespace Items

variable {xs vs : List Value} {ps : List Nat}

@[simp] theorem length_place (xs : List Value) (ps : List Nat) (vs : List Value) :
    (place xs ps vs).length = xs.length := by
  induction ps generalizing xs vs with
  | nil => rfl
  | cons p ps ih =>
    cases vs with
    | nil => rfl
    | cons v vs => rw [place_cons, ih, List.length_set]

theorem getElem?_place_of_notMem {q : Nat} (other : q ∉ ps) (xs vs : List Value) :
    (place xs ps vs)[q]? = xs[q]? := by
  induction ps generalizing xs vs with
  | nil => rfl
  | cons p ps ih =>
    rw [List.mem_cons, not_or] at other
    cases vs with
    | nil => rfl
    | cons v vs => rw [place_cons, ih other.2, List.getElem?_set_ne (Ne.symm other.1)]

/-- What was put at a position stays there, since no later value is put at the same one. -/
theorem pick_place (distinct : ps.Nodup) (inside : ∀ p ∈ ps, p < xs.length) (sizes : ps.length = vs.length) :
    Sequence.pick (place xs ps vs) ps = vs := by
  rw [Sequence.pick_eq_filterMap]
  induction ps generalizing xs vs with
  | nil => exact (List.length_eq_zero_iff.1 sizes.symm).symm
  | cons p ps ih =>
    obtain ⟨v, vs, rfl⟩ := List.exists_cons_of_length_eq_add_one sizes.symm
    obtain ⟨fresh, distinct⟩ := List.nodup_cons.1 distinct
    obtain ⟨here, later⟩ := List.forall_mem_cons.1 inside
    have written : (place (xs.set p v) ps vs)[p]? = some v := by
      rw [getElem?_place_of_notMem fresh, List.getElem?_set_self here]
    rw [place_cons, List.filterMap_cons_some written]
    refine congrArg (v :: ·) (ih distinct ?_ (Nat.succ.inj sizes))
    simpa using later

theorem place_pick (inside : ∀ p ∈ ps, p < xs.length) : place xs ps (Sequence.pick xs ps) = xs := by
  rw [Sequence.pick_eq_filterMap]
  induction ps with
  | nil => rfl
  | cons p ps ih =>
    obtain ⟨here, later⟩ := List.forall_mem_cons.1 inside
    rw [List.filterMap_cons_some (List.getElem?_eq_getElem here), place_cons, List.set_getElem_self, ih later]

/-- The selected positions hold the values, in their order, and all others what they held. -/
structure Overwrites (xs : List Value) (ps : List Nat) (vs ys : List Value) : Prop where
  length_eq : ys.length = xs.length
  selected : ∀ i p : Nat, ps[i]? = some p → ys[p]? = vs[i]?
  others : ∀ p, p ∉ ps → ys[p]? = xs[p]?

theorem overwrites_place (distinct : ps.Nodup) (inside : ∀ p ∈ ps, p < xs.length)
    (sizes : ps.length = vs.length) : Overwrites xs ps vs (place xs ps vs) := by
  refine ⟨length_place xs ps vs, ?_, fun p other => getElem?_place_of_notMem other xs vs⟩
  intro i p found
  have inside : ∀ p ∈ ps, p < (place xs ps vs).length := by simpa using inside
  have items := Sequence.map_some_pick inside
  rw [pick_place distinct (by simpa using inside) sizes] at items
  have here : (vs.map some)[i]? = (ps.map ((place xs ps vs)[·]?))[i]? := congrArg (·[i]?) items
  rw [List.getElem?_map, List.getElem?_map, found] at here
  obtain ⟨v, value, same⟩ := Option.map_eq_some_iff.1 here
  rw [value, same]

section Assign

variable {r : Indices}

theorem assign_of_unit (unit : r.step = 1) (xs vs : List Value) :
    assign xs r vs = .ok (xs.take r.start ++ vs ++ xs.drop (max r.start r.stop)) := by
  rw [assign_eq, if_pos unit]

theorem assign_of_length_eq (strided : r.step ≠ 1) (sizes : r.length = vs.length) (xs : List Value) :
    assign xs r vs = .ok (place xs r.positions vs) := by
  rw [assign_eq, if_neg strided, if_neg (not_not.2 sizes)]

theorem assign_of_length_ne (strided : r.step ≠ 1) (sizes : r.length ≠ vs.length) (xs : List Value) :
    assign xs r vs = .error (.sizeMismatch vs.length r.length) := by
  rw [assign_eq, if_neg strided, if_pos sizes]

/-- The number that is computed from the bounds is compared with the number of values, and it is the number of
positions that are then written. -/
theorem assign_fails_iff (h : r.Bounded xs.length) (strided : r.step ≠ 1) :
    (∃ e, assign xs r vs = .error e ∧ e.category = .valueError) ↔ vs.length ≠ r.positions.length := by
  rw [h.length_positions]
  constructor
  · rintro ⟨e, failed, -⟩ sizes
    rw [assign_of_length_eq strided sizes.symm] at failed
    cases failed
  · intro sizes
    exact ⟨_, assign_of_length_ne strided (Ne.symm sizes) xs, rfl⟩

theorem exists_overwrites_of_assign (h : r.Bounded xs.length) (strided : r.step ≠ 1)
    (sizes : vs.length = r.positions.length) :
    ∃ ys, assign xs r vs = .ok ys ∧ Overwrites xs r.positions vs ys ∧ Sequence.pick ys r.positions = vs := by
  have inside : ∀ p ∈ r.positions, p < xs.length := fun p hp => h.lt_of_mem_positions hp
  have count : r.length = vs.length := by rw [sizes, h.length_positions]
  exact ⟨_, assign_of_length_eq strided count xs, overwrites_place h.nodup_positions inside sizes.symm,
    pick_place h.nodup_positions inside sizes.symm⟩

/-- A window stands between what comes before it and what comes after it, also if it is empty. -/
theorem take_window_drop (xs : List Value) (a b : Nat) :
    xs.take a ++ (xs.drop a).take (b - a) ++ xs.drop (max a b) = xs := by
  have after : xs.drop (max a b) = (xs.drop a).drop (b - a) := by
    rw [List.drop_drop]
    congr 1
    omega
  rw [after, List.append_assoc, List.take_append_drop, List.take_append_drop]

theorem assign_pick (h : r.Bounded xs.length) : assign xs r (Sequence.pick xs r.positions) = .ok xs := by
  by_cases unit : r.step = 1
  · rw [assign_of_unit unit, h.positions_of_unit unit, Sequence.pick_range', take_window_drop]
  · have inside : ∀ p ∈ r.positions, p < xs.length := fun p hp => h.lt_of_mem_positions hp
    have sizes : r.length = (Sequence.pick xs r.positions).length := by
      rw [Sequence.length_pick inside, h.length_positions]
    rw [assign_of_length_eq unit sizes, place_pick inside]

end Assign
end Items

theorem Enters.exec_assignSlice {v : Value} {s t : Store} {vs : List Value} {i : Nat} (h : Enters v s vs i t)
    {xs : List Value} {sl : Slice} {r : Indices} (resolved : sl.resolve xs.length = .ok r) :
    exec (Value.assignSlice xs sl v) s = (Items.assign xs r vs, t.skip i vs.length) := by
  rw [Value.assignSlice_eq, exec_bind, h.found, resolved]
  change exec (Run.drain i >>= fun items => liftM (Items.assign xs r items)) t = _
  rw [exec_bind, h.exec_drain]
  rfl

/-- Assignment to a slice. With a step of one, the values take the place of what stands between the resolved
bounds. With another one they have to be as many as the selected positions; each of these then holds its value,
and the slice reads as the values. Assigning what a slice reads as changes nothing. The length of a list is a
word, as that of every list in memory. -/
theorem slice_assignment_laws (xs : List Value) (sl : Slice) (nonzero : sl.step ≠ some 0)
    (small : (xs.length : Int) ≤ Int64.maxValue.toInt) :
    ∃ (r : Indices) (ps : List Nat) (picked : List Value), sl.resolve xs.length = .ok r ∧
      r.ends = (sl.origin xs.length, sl.goal xs.length) ∧ sl.Selects xs.length (ps.map Int.ofNat) ∧
      (∀ (v : Value) (s : Store) (vs : List Value), v.items? s = some vs → ∃ t, s.Consumed v t ∧
        (sl.stride = 1 → exec (Value.assignSlice xs sl v) s =
          (.ok (xs.take r.start ++ vs ++ xs.drop (max r.start r.stop)), t)) ∧
        (sl.stride ≠ 1 →
          ((∃ e, exec (Value.assignSlice xs sl v) s = (.error e, t) ∧ e.category = .valueError) ↔
            vs.length ≠ ps.length) ∧
          (vs.length = ps.length → ∃ ys, exec (Value.assignSlice xs sl v) s = (.ok ys, t) ∧
            Items.Overwrites xs ps vs ys ∧ Sequence.slice ys sl = .ok vs))) ∧
      Sequence.slice xs sl = .ok picked ∧
      ∀ (v : Value) (s : Store), v.items? s = some picked →
        ∃ t, s.Consumed v t ∧ exec (Value.assignSlice xs sl v) s = (.ok xs, t) := by
  obtain ⟨r, resolves⟩ := Slice.exists_resolves nonzero small
  have bounded := resolves.toBounded
  refine ⟨r, r.positions, _, resolves.resolved, resolves.ends_eq, resolves.selects, ?_,
    Sequence.slice_of_resolves resolves, ?_⟩
  · intro v s vs items
    obtain ⟨i, t, enters⟩ := Value.exists_enters items
    refine ⟨_, enters.consumed, ?_, ?_⟩
    · intro unit
      rw [enters.exec_assignSlice resolves.resolved, Items.assign_of_unit (resolves.step_eq_one_iff.2 unit)]
    · intro strided
      have strided := mt resolves.step_eq_one_iff.1 strided
      simp only [enters.exec_assignSlice resolves.resolved, Prod.mk.injEq, and_true]
      refine ⟨Items.assign_fails_iff bounded strided, ?_⟩
      intro sizes
      obtain ⟨ys, assigned, overwrites, back⟩ := Items.exists_overwrites_of_assign bounded strided sizes
      refine ⟨ys, assigned, overwrites, ?_⟩
      rw [Sequence.slice_of_resolves (overwrites.length_eq ▸ resolves), back]
  · intro v s items
    obtain ⟨i, t, enters⟩ := Value.exists_enters items
    refine ⟨_, enters.consumed, ?_⟩
    rw [enters.exec_assignSlice resolves.resolved, Items.assign_pick bounded]

namespace Quartet

def items : List Value := [.int 10, .int 20, .int 30, .int 40]

/-- Every other position from the end down to below the least word. -/
def backwards : Slice := ⟨none, some Int64.minValue, some (-2)⟩

/-- From a bound back to an earlier one, by steps forwards. -/
def inverted : Slice := ⟨some 3, some (-3), none⟩

theorem selects_every_other : backwards.Selects 4 ([3, 1].map Int.ofNat) :=
  .more (by decide) (.more (by decide) (.done (by decide)))

theorem eq_of_selects {ps : List Nat} (h : backwards.Selects 4 (ps.map Int.ofNat)) : ps = [3, 1] :=
  (List.map_inj_right fun _ _ => Int.ofNat.inj).1 (h.unique selects_every_other)

end Quartet

/-- The two items that an iterator has left go to the last position and to the one two before it. -/
theorem quartet_assigned_from_iterator :
    ∃ ys t, exec (Value.assignSlice Quartet.items Quartet.backwards (.iter 0)) Box.session.store = (.ok ys, t) ∧
      (t.cursor 0).remaining = 0 ∧ ys[3]? = some (.int 1) ∧ ys[1]? = some (.int 2) ∧ ys[2]? = some (.int 30) ∧
      Sequence.slice ys Quartet.backwards = .ok [.int 1, .int 2] := by
  obtain ⟨r, ps, picked, -, -, selects, assigned, -, -⟩ :=
    slice_assignment_laws Quartet.items Quartet.backwards (by decide) (by decide)
  obtain rfl := Quartet.eq_of_selects selects
  obtain ⟨t, consumed, -, strided⟩ := assigned (.iter 0) Box.session.store [.int 1, .int 2] rfl
  obtain ⟨ys, done, overwrites, back⟩ := (strided (by decide)).2 rfl
  exact ⟨ys, t, done, consumed.exhausted 0 rfl, overwrites.selected 0 3 rfl, overwrites.selected 1 1 rfl,
    overwrites.others 2 (by decide), back⟩

section Unselected

variable {ps : List Nat} {n : Nat}

/-- All positions but those of a window. -/
theorem filter_notMem_range' {a k : Nat} (inside : a + k ≤ n) :
    (List.range n).filter (· ∉ List.range' a k) = List.range' 0 a ++ List.range' (a + k) (n - (a + k)) := by
  have parts : List.range n =
      List.range' 0 a ++ (List.range' a k ++ List.range' (a + k) (n - (a + k))) := by
    have front : List.range' 0 a ++ List.range' (0 + a) (k + (n - (a + k))) = _ := List.range'_append_1
    rw [Nat.zero_add] at front
    rw [List.range'_append_1, front, List.range_eq_range']
    congr 1
    omega
  have before : (List.range' 0 a).filter (· ∉ List.range' a k) = List.range' 0 a := by
    rw [List.filter_eq_self]
    intro p hp
    rw [List.mem_range'_1] at hp
    rw [decide_eq_true_iff, List.mem_range'_1]
    omega
  have window : (List.range' a k).filter (· ∉ List.range' a k) = [] := by simp
  have after : (List.range' (a + k) (n - (a + k))).filter (· ∉ List.range' a k) =
      List.range' (a + k) (n - (a + k)) := by
    rw [List.filter_eq_self]
    intro p hp
    rw [List.mem_range'_1] at hp
    rw [decide_eq_true_iff, List.mem_range'_1]
    omega
  rw [parts, List.filter_append, List.filter_append, before, window, after, List.nil_append]

theorem length_filter_notMem (distinct : ps.Nodup) (inside : ∀ p ∈ ps, p < n) :
    ((List.range n).filter (· ∉ ps)).length + ps.length = n := by
  have same : ((List.range n).filter (· ∈ ps)).Perm ps := by
    rw [List.perm_ext_iff_of_nodup (List.nodup_range.filter _) distinct]
    intro p
    simpa using inside p
  have parts := List.length_eq_length_filter_add (l := List.range n) fun p => decide (p ∈ ps)
  rw [List.length_range, same.length_eq] at parts
  simp only [← decide_not] at parts
  omega

end Unselected

namespace Items

variable {xs : List Value} {sl : Slice} {r : Indices}

theorem window_drop_eq_dropPositions (h : r.Bounded xs.length) (unit : r.step = 1) :
    xs.take r.start ++ xs.drop (max r.start r.stop) = dropPositions xs r.positions := by
  have start := h.start
  have stop := h.stop
  have bound : r.start + (r.stop - r.start) = max r.start r.stop := by omega
  rw [dropPositions_eq, h.positions_of_unit unit, filter_notMem_range' (by omega), Sequence.pick_append,
    Sequence.pick_range', Sequence.pick_range', bound, List.drop_zero]
  congr 1
  rw [List.take_of_length_le (by simp)]

/-- Both ways of deleting a slice leave the same items. -/
theorem deleteSlice_of_resolves (h : sl.Resolves xs.length r) :
    deleteSlice xs sl = .ok (dropPositions xs r.positions) := by
  rw [deleteSlice_eq, h.resolved]
  by_cases unit : r.step = 1
  · rw [← window_drop_eq_dropPositions h.toBounded unit]
    exact if_pos unit
  · exact if_neg unit

end Items

/-- Deleting a slice leaves the items at the positions that it does not select, in their order. Cutting out the
window of a slice of step one comes to the same as sweeping over all items, and to the same as assigning no
items. -/
theorem slice_deletion_keeps_unselected (xs : List Value) (sl : Slice) (nonzero : sl.step ≠ some 0)
    (small : (xs.length : Int) ≤ Int64.maxValue.toInt) :
    ∃ (r : Indices) (ps : List Nat) (ys : List Value), sl.resolve xs.length = .ok r ∧
      sl.Selects xs.length (ps.map Int.ofNat) ∧ Items.deleteSlice xs sl = .ok ys ∧
      ys.map some = ((List.range xs.length).filter (· ∉ ps)).map (xs[·]?) ∧
      ys.length + r.length = xs.length ∧ ys = Items.dropPositions xs r.positions ∧
      (sl.stride = 1 → ys = xs.take r.start ++ xs.drop (max r.start r.stop) ∧
        ∀ (v : Value) (s : Store), v.items? s = some [] →
          ∃ t, s.Consumed v t ∧ exec (Value.assignSlice xs sl v) s = (.ok ys, t)) := by
  obtain ⟨r, resolves⟩ := Slice.exists_resolves nonzero small
  have inside : ∀ p ∈ (List.range xs.length).filter (· ∉ r.positions), p < xs.length := by
    intro p hp
    exact List.mem_range.1 (List.mem_of_mem_filter hp)
  have kept := Items.dropPositions_eq xs r.positions
  refine ⟨r, r.positions, _, resolves.resolved, resolves.selects, Items.deleteSlice_of_resolves resolves,
    ?_, ?_, rfl, ?_⟩
  · rw [kept, Sequence.map_some_pick inside]
  · rw [kept, Sequence.length_pick inside, ← resolves.length_positions]
    exact length_filter_notMem resolves.nodup_positions fun p hp => resolves.lt_of_mem_positions hp
  · intro unit
    have unit := resolves.step_eq_one_iff.2 unit
    have window := Items.window_drop_eq_dropPositions resolves.toBounded unit
    refine ⟨window.symm, ?_⟩
    intro v s items
    obtain ⟨i, t, enters⟩ := Value.exists_enters items
    refine ⟨_, enters.consumed, ?_⟩
    rw [enters.exec_assignSlice resolves.resolved, Items.assign_of_unit unit, List.append_nil, window]

/-- Of four items every other one is left; between inverted bounds there is nothing to cut out. -/
theorem quartet_deleted :
    Items.deleteSlice Quartet.items Quartet.backwards = .ok [.int 10, .int 30] ∧
      Items.deleteSlice Quartet.items Quartet.inverted = .ok Quartet.items ∧
      ∃ t, exec (Value.assignSlice Quartet.items Quartet.inverted (.list [])) .empty = (.ok Quartet.items, t) := by
  obtain ⟨-, ps, ys, -, selects, deleted, kept, -, -, -⟩ :=
    slice_deletion_keeps_unselected Quartet.items Quartet.backwards (by decide) (by decide)
  obtain rfl := Quartet.eq_of_selects selects
  obtain ⟨r, -, zs, resolved, -, none, -, -, -, unit⟩ :=
    slice_deletion_keeps_unselected Quartet.items Quartet.inverted (by decide) (by decide)
  obtain ⟨window, assigned⟩ := unit rfl
  cases resolved
  subst window
  obtain ⟨t, -, same⟩ := assigned (.list []) .empty rfl
  have left : ys = [.int 10, .int 30] := List.map_injective_iff.2 (Option.some_injective _) kept
  exact ⟨left ▸ deleted, none, t, same⟩

end DynamicValues
