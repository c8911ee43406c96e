import DynamicValues.Collect
import DynamicValues.Proofs.Contents
import DynamicValues.Proofs.Order

/-!
Sorting. There is one list with the same items in ascending order in which those of one place of the order follow
each other as they did before, and sorting gives that list. The order is total and transitive on values of all
kinds, so nothing is asked of the items.
-/

set_option autoImplicit false

namespace DynamicValues

namespace Value

variable {a b c : Value}

theorem le_iff : a.le b = true ↔ a.cmp b ≠ .gt := bne_iff_ne

theorem transitive_le (a b c : Value) (hab : a.le b = true) (hbc : b.le c = true) : a.le c = true := by
  have hab := Ordering.ne_gt_iff_isLE.1 (le_iff.1 hab)
  have hbc := Ordering.ne_gt_iff_isLE.1 (le_iff.1 hbc)
  exact le_iff.2 (Ordering.ne_gt_iff_isLE.2 (Std.TransCmp.isLE_trans hab hbc))

theorem total_le (a b : Value) : (a.le b || b.le a) = true := by
  rw [Bool.or_eq_true, le_iff, le_iff, cmp_swap a b]
  cases a.cmp b <;> simp

theorem cmp_eq_of_ne_gt (hab : a.cmp b ≠ .gt) (hba : b.cmp a ≠ .gt) : a.cmp b = .eq := by
  rw [cmp_swap a b] at hba
  cases order : a.cmp b with
  | lt => rw [order] at hba; exact absurd rfl hba
  | eq => rfl
  | gt => exact absurd order hab

/-- Two values in the place of a third one are in one place. -/
theorem cmp_eq_of_cmp_eq (ha : a.cmp c = .eq) (hb : b.cmp c = .eq) : a.cmp b = .eq := by
  rw [Std.TransCmp.congr_left ha, cmp_swap, hb]
  rfl

end Value

namespace Items

/-- No earlier item is greater than a later one. -/
def Ascending (xs : List Value) : Prop := xs.Pairwise fun a b => a.cmp b ≠ .gt

/-- The items that stand in one place of the order with `a`. -/
def ties (xs : List Value) (a : Value) : List Value := xs.filter fun x => x.cmp a == .eq

/-- The same items in ascending order, those of one place as they came. -/
structure Sorts (xs ys : List Value) : Prop where
  perm : ys.Perm xs
  ascending : Ascending ys
  stable : ∀ a, ties ys a = ties xs a

variable {xs ys zs : List Value} {a x y z : Value}

theorem mem_ties : x ∈ ties xs a ↔ x ∈ xs ∧ x.cmp a = .eq := by
  rw [ties, List.mem_filter, beq_iff_eq]

theorem mem_ties_self : x ∈ ties xs x ↔ x ∈ xs := by
  rw [mem_ties, Value.cmp_self, and_iff_left rfl]

theorem ties_ties (xs : List Value) (a : Value) : ties (ties xs a) a = ties xs a :=
  List.filter_eq_self.2 fun _ hx => beq_iff_eq.2 (mem_ties.1 hx).2

theorem ties_cons_of_eq (h : x.cmp a = .eq) (xs : List Value) : ties (x :: xs) a = x :: ties xs a :=
  List.filter_cons_of_pos (beq_iff_eq.2 h)

theorem ties_cons_of_ne (h : x.cmp a ≠ .eq) (xs : List Value) : ties (x :: xs) a = ties xs a :=
  List.filter_cons_of_neg (mt beq_iff_eq.1 h)

section Stable

theorem ascending_iff : Ascending xs ↔ xs.Pairwise fun a b => a.le b = true := by
  simp only [Ascending, Value.le_iff]

theorem ascending_sort (xs : List Value) : Ascending (sort xs) :=
  ascending_iff.2 (List.pairwise_mergeSort Value.transitive_le Value.total_le xs)

theorem ascending_ties (xs : List Value) (a : Value) : Ascending (ties xs a) := by
  apply List.pairwise_of_forall_mem_list
  intro x hx y hy
  rw [Value.cmp_eq_of_cmp_eq (mem_ties.1 hx).2 (mem_ties.1 hy).2]
  exact nofun

/-- A sort that keeps ascending parts of the list together keeps each place of the order as it was, since a part
that is as long as the whole is the whole. -/
theorem ties_sort (xs : List Value) (a : Value) : ties (sort xs) a = ties xs a := by
  have kept : (ties xs a).Sublist (sort xs) :=
    List.sublist_mergeSort Value.transitive_le Value.total_le (ascending_iff.1 (ascending_ties xs a))
      List.filter_sublist
  have within : (ties (ties xs a) a).Sublist (ties (sort xs) a) := kept.filter _
  rw [ties_ties] at within
  have sizes := ((List.mergeSort_perm xs Value.le).filter fun x => x.cmp a == .eq).length_eq
  exact (within.eq_of_length sizes.symm).symm

theorem sorts_sort (xs : List Value) : Sorts xs (sort xs) :=
  ⟨List.mergeSort_perm xs Value.le, ascending_sort xs, ties_sort xs⟩

theorem sort_of_ascending (h : Ascending xs) : sort xs = xs :=
  List.mergeSort_of_pairwise (ascending_iff.1 h)

end Stable

section Unique

theorem Ascending.head_ne_gt (h : Ascending (x :: xs)) (hy : y ∈ x :: xs) : x.cmp y ≠ .gt := by
  rcases List.mem_cons.1 hy with rfl | later
  · rw [Value.cmp_self]
    exact nofun
  · exact List.rel_of_pairwise_cons h later

/-- Each head stands in the other list too, so neither is less and both begin what stands in one place. -/
theorem head_eq_of_ties_eq (hy : Ascending (y :: ys)) (hz : Ascending (z :: zs))
    (same : ∀ a, ties (y :: ys) a = ties (z :: zs) a) : y = z := by
  have mem (x : Value) : x ∈ y :: ys ↔ x ∈ z :: zs := by
    rw [← mem_ties_self, same, mem_ties_self]
  have below := hy.head_ne_gt ((mem z).2 List.mem_cons_self)
  have above := hz.head_ne_gt ((mem y).1 List.mem_cons_self)
  have first := same y
  rw [ties_cons_of_eq (Value.cmp_self y), ties_cons_of_eq (Value.cmp_eq_of_ne_gt above below)] at first
  exact (List.cons.inj first).1

/-- An ascending list is determined by what stands in each place of the order. -/
theorem eq_of_ties_eq (hy : Ascending ys) (hz : Ascending zs) (same : ∀ a, ties ys a = ties zs a) : ys = zs := by
  induction ys generalizing zs with
  | nil =>
    cases zs with
    | nil => rfl
    | cons z zs =>
      have stray : z ∈ ties [] z := same z ▸ mem_ties_self.2 List.mem_cons_self
      cases stray
  | cons y ys ih =>
    cases zs with
    | nil =>
      have stray : y ∈ ties [] y := same y ▸ mem_ties_self.2 List.mem_cons_self
      cases stray
    | cons z zs =>
      obtain rfl := head_eq_of_ties_eq hy hz same
      refine congrArg (y :: ·) (ih hy.tail hz.tail fun a => ?_)
      have places := same a
      by_cases place : y.cmp a = .eq
      · rw [ties_cons_of_eq place, ties_cons_of_eq place] at places
        exact (List.cons.inj places).2
      · rwa [ties_cons_of_ne place, ties_cons_of_ne place] at places

theorem sorts_iff_eq_sort : Sorts xs ys ↔ ys = sort xs := by
  constructor
  · intro h
    apply eq_of_ties_eq h.ascending (ascending_sort xs)
    intro a
    rw [h.stable, ties_sort]
  · rintro rfl
    exact sorts_sort xs

end Unique
end Items

theorem Enters.exec_sorted {v : Value} {s t : Store} {xs : List Value} {i : Nat} (h : Enters v s xs i t) :
    exec (Run.sorted v) s = (.ok (.list (Items.sort xs)), t.skip i xs.length) := by
  rw [Run.sorted, exec_bind, h.exec_itemsOf]
  rfl

/-- Sorting gives the one list of the items that is ascending and stable, for a list in place as for the items of
any value; a list that is ascending stays as it is. -/
theorem sort_unique_stable :
    (∀ xs ys : List Value, Items.Sorts xs ys ↔ ys = Items.sort xs) ∧
    (∀ (v : Value) (s : Store) (xs : List Value), v.items? s = some xs →
      ∃ ys t, Items.Sorts xs ys ∧ s.Consumed v t ∧ exec (Run.sorted v) s = (.ok (.list ys), t)) ∧
    (∀ xs : List Value, Items.Ascending xs → Items.sort xs = xs) ∧
    ∀ xs : List Value, Items.sort (Items.sort xs) = Items.sort xs := by
  refine ⟨fun _ _ => Items.sorts_iff_eq_sort, ?_, fun _ => Items.sort_of_ascending, ?_⟩
  · intro v s xs items
    obtain ⟨i, t, enters⟩ := Value.exists_enters items
    exact ⟨_, _, Items.sorts_sort xs, enters.consumed, enters.exec_sorted⟩
  · intro xs
    exact Items.sort_of_ascending (Items.ascending_sort xs)

namespace Medley

/-- An iterator from which the first item was taken. -/
def program : List Call :=
  [⟨.query .identity [.iter [.none, .dict [], .int 1, .bool true, .dict [(.int 1, .none)]]], some "walk"⟩,
    ⟨.query (.iter .next) [.var "walk"], none⟩]

def store : Store := (Session.empty.run [] program).2.store

def empty : Value := .dict .empty

def single : Value := .dict ⟨[⟨1, .int 1, .none⟩]⟩

/-- What the iterator has left: two dicts and two numbers, each two in one place of the order. -/
def items : List Value := [empty, .int 1, .bool true, single]

theorem items_walk : (Value.iter 0).items? store = some items := rfl

end Medley

/-- Numbers of two kinds that are equal, and dicts that are not, keep the order in which they came. -/
theorem medley_sorted_stable :
    (∃ ys t, exec (Run.sorted (.iter 0)) Medley.store = (.ok (.list ys), t) ∧ Items.Ascending ys ∧
      Items.ties ys (.int 1) = [.int 1, .bool true] ∧
      Items.ties ys Medley.empty = [Medley.empty, Medley.single]) ∧
    Items.sort [.int 1, .bool true, Medley.empty, Medley.single] =
      [.int 1, .bool true, Medley.empty, Medley.single] := by
  obtain ⟨-, sorted, fixed, -⟩ := sort_unique_stable
  constructor
  · obtain ⟨ys, t, sorts, -, ran⟩ := sorted (.iter 0) Medley.store Medley.items Medley.items_walk
    exact ⟨ys, t, ran, sorts.ascending, sorts.stable _, sorts.stable _⟩
  · apply fixed
    simp only [Items.Ascending, List.pairwise_cons, List.forall_mem_cons]
    decide

end DynamicValues
