import DynamicValues.Aggregate
import DynamicValues.Proofs.Sorting

/-!
The least and the greatest item. One pass replaces the best item so far by one that is strictly better, so it ends
at the first of the best items. A sorted list begins with the first of the least items and ends with all of the
greatest ones, of which the first comes first.
-/

set_option autoImplicit false

namespace DynamicValues

namespace Extremum

variable {e : Extremum} {xs : List Value} {x y best : Value}

/-- The order in which a better item is less. -/
def cmp : Extremum → Value → Value → Ordering
  | .min, a, b => a.cmp b
  | .max, a, b => b.cmp a

instance (e : Extremum) : Std.TransCmp e.cmp :=
  match e with
  | .min => inferInstanceAs (Std.TransCmp Value.cmp)
  | .max => inferInstanceAs (Std.TransCmp fun a b => Value.cmp b a)

theorem cmp_eq_lt_iff : e.cmp x y = .lt ↔ x.cmp y = e.wanted := by
  cases e with
  | min => rfl
  | max => exact Std.OrientedCmp.gt_iff_lt.symm

/-- The item is better than all before it, and none after it is better. -/
def Chooses (e : Extremum) (xs : List Value) (x : Value) : Prop :=
  ∃ before after, xs = before ++ x :: after ∧ (∀ y ∈ before, e.cmp x y = .lt) ∧ ∀ y ∈ after, e.cmp y x ≠ .lt

namespace Chooses

theorem singleton (e : Extremum) (x : Value) : e.Chooses [x] x := ⟨[], [], rfl, nofun, nofun⟩

theorem mem (h : e.Chooses xs x) : x ∈ xs := by
  obtain ⟨before, after, rfl, -, -⟩ := h
  exact List.mem_append_right before List.mem_cons_self

theorem isLE (h : e.Chooses xs x) (hy : y ∈ xs) : (e.cmp x y).isLE := by
  obtain ⟨before, after, rfl, worse, others⟩ := h
  rcases List.mem_append.1 hy with earlier | later
  · rw [worse y earlier]
    rfl
  rcases List.mem_cons.1 later with rfl | later
  · exact Std.ReflCmp.isLE_rfl
  · exact Ordering.ne_gt_iff_isLE.1 (mt Std.OrientedCmp.gt_iff_lt.1 (others y later))

theorem not_better (h : e.Chooses xs x) (hy : y ∈ xs) : y.cmp x ≠ e.wanted := by
  intro better
  have ahead := Std.OrientedCmp.gt_iff_lt.2 (cmp_eq_lt_iff.2 better)
  exact Ordering.ne_gt_iff_isLE.2 (h.isLE hy) ahead

/-- One more item is chosen only if it is better than the best so far, and so than all items so far. -/
theorem step (h : e.Chooses xs best) (x : Value) : e.Chooses (xs ++ [x]) (e.choose best x) := by
  by_cases better : x.cmp best = e.wanted
  · rw [choose, if_pos better]
    refine ⟨xs, [], rfl, ?_, nofun⟩
    intro y hy
    exact Std.TransCmp.lt_of_lt_of_isLE (cmp_eq_lt_iff.2 better) (h.isLE hy)
  · rw [choose, if_neg better]
    obtain ⟨before, after, rfl, worse, others⟩ := h
    refine ⟨before, after ++ [x], by rw [List.append_assoc, List.cons_append], worse, ?_⟩
    rw [List.forall_mem_append, List.forall_mem_singleton]
    exact ⟨others, mt cmp_eq_lt_iff.1 better⟩

theorem run (h : e.Chooses xs best) (ys : List Value) : e.Chooses (xs ++ ys) (ys.foldl e.choose best) := by
  induction ys generalizing xs best with
  | nil => rwa [List.append_nil]
  | cons y ys ih =>
    have later := ih (h.step y)
    rwa [List.append_assoc, List.singleton_append] at later

theorem find?_eq (h : e.Chooses xs x) : xs.find? (fun x => xs.all fun y => y.cmp x != e.wanted) = some x := by
  have best : xs.all (fun y => y.cmp x != e.wanted) = true :=
    List.all_eq_true.2 fun y hy => bne_iff_ne.2 (h.not_better hy)
  have here := h.mem
  obtain ⟨before, after, parts, worse, -⟩ := h
  refine List.find?_eq_some_iff_append.2 ⟨best, before, after, parts, ?_⟩
  intro y earlier
  have better : x.cmp y = e.wanted := cmp_eq_lt_iff.1 (worse y earlier)
  rw [Bool.not_eq_true', List.all_eq_false]
  exact ⟨x, here, by simp [better]⟩

/-- Of the items in its place, the chosen one comes first. -/
theorem ties_eq (h : e.Chooses xs x) : ∃ rest, Items.ties xs x = x :: rest := by
  obtain ⟨before, after, rfl, worse, -⟩ := h
  have apart : Items.ties before x = [] := by
    rw [List.eq_nil_iff_forall_not_mem]
    intro y tied
    obtain ⟨earlier, place⟩ := Items.mem_ties.1 tied
    have better : x.cmp y = e.wanted := cmp_eq_lt_iff.1 (worse y earlier)
    rw [Value.cmp_swap, place] at better
    cases e <;> cases better
  refine ⟨Items.ties after x, ?_⟩
  rw [Items.ties, List.filter_append, ← Items.ties, ← Items.ties, apart, List.nil_append,
    Items.ties_cons_of_eq (Value.cmp_self x)]

end Chooses
end Extremum

namespace Items

variable {xs : List Value} {a x : Value}

theorem Ascending.head?_eq (h : Ascending xs) (mem : a ∈ xs) (least : ∀ x ∈ xs, x.cmp a ≠ .lt) {rest : List Value}
    (first : ties xs a = a :: rest) : xs.head? = some a := by
  cases xs with
  | nil => cases mem
  | cons x xs =>
    have above : a.cmp x ≠ .gt := mt Std.OrientedCmp.gt_iff_lt.1 (least x List.mem_cons_self)
    rw [ties_cons_of_eq (Value.cmp_eq_of_ne_gt (h.head_ne_gt mem) above)] at first
    exact congrArg some (List.cons.inj first).1

/-- If nothing is greater than a value, what stands in its place comes last. -/
theorem Ascending.eq_append_ties (h : Ascending xs) (greatest : ∀ x ∈ xs, x.cmp a ≠ .gt) :
    xs = xs.filter (·.cmp a == .lt) ++ ties xs a := by
  induction xs with
  | nil => rfl
  | cons x xs ih =>
    obtain ⟨least, rest⟩ := List.pairwise_cons.1 h
    obtain ⟨here, later⟩ := List.forall_mem_cons.1 greatest
    cases order : x.cmp a with
    | lt =>
      have parts := ih rest later
      rw [List.filter_cons_of_pos (by rw [order]; rfl), ties_cons_of_ne (by rw [order]; exact nofun),
        List.cons_append, ← parts]
    | eq =>
      have level (y : Value) (hy : y ∈ xs) : y.cmp a = .eq := by
        apply Value.cmp_eq_of_ne_gt (later y hy)
        rw [← Std.TransCmp.congr_left order]
        exact least y hy
      have none : xs.filter (·.cmp a == .lt) = [] := by
        rw [List.filter_eq_nil_iff]
        intro y hy
        rw [level y hy]
        exact nofun
      have all : ties xs a = xs := List.filter_eq_self.2 fun y hy => beq_iff_eq.2 (level y hy)
      rw [List.filter_cons_of_neg (by rw [order]; exact nofun), none, ties_cons_of_eq order, all, List.nil_append]
    | gt => exact absurd order here

/-- The least item that is chosen is the first one of the sorted list. -/
theorem head?_sort (h : Extremum.min.Chooses xs x) : (sort xs).head? = some x := by
  have mem (y : Value) : y ∈ sort xs ↔ y ∈ xs := (sorts_sort xs).perm.mem_iff
  obtain ⟨rest, first⟩ := h.ties_eq
  apply (ascending_sort xs).head?_eq ((mem x).2 h.mem)
  · intro y hy
    exact h.not_better ((mem y).1 hy)
  · rw [ties_sort, first]

/-- The greatest item that is chosen is the first one of the last place of the sorted list. -/
theorem sort_eq_append (h : Extremum.max.Chooses xs x) : ∃ below level, sort xs = below ++ x :: level ∧
    (∀ y ∈ below, y.cmp x = .lt) ∧ ∀ y ∈ level, y.cmp x = .eq := by
  have mem (y : Value) : y ∈ sort xs ↔ y ∈ xs := (sorts_sort xs).perm.mem_iff
  obtain ⟨rest, first⟩ := h.ties_eq
  have parts := (ascending_sort xs).eq_append_ties fun y hy => h.not_better ((mem y).1 hy)
  rw [ties_sort, first] at parts
  refine ⟨_, rest, parts, ?_, ?_⟩
  · intro y hy
    exact beq_iff_eq.1 (List.mem_filter.1 hy).2
  · intro y hy
    exact (mem_ties.1 (first ▸ List.mem_cons_of_mem x hy)).2

end Items

theorem Extremum.foldl_choose (e : Extremum) (x : Value) (xs : List Value) :
    (x :: xs).foldl (fun best x => some (best.elim x (e.choose · x))) none = some (xs.foldl e.choose x) :=
  List.foldl_hom some fun _ _ => rfl

theorem Enters.exec_extremum {v : Value} {s t : Store} {xs : List Value} {i : Nat} (h : Enters v s xs i t)
    (e : Extremum) :
    exec (Run.extremum e v) s =
      ((xs.foldl (fun best x => some (best.elim x (e.choose · x))) none).elim (.error (.noExtremum e)) .ok,
        t.skip i xs.length) := by
  rw [Run.extremum, ← bind_assoc, exec_bind, h.exec_fold fun best x => some (best.elim x (e.choose · x))]
  cases xs.foldl (fun best x => some (best.elim x (e.choose · x))) none <;> rfl

/-- The least item is the very one at which the sorted items begin, and the greatest one that at which their last
place begins; both are the first of their place among the items as they come. Without items there is neither. -/
theorem extrema_agree_with_sorted {v : Value} {s : Store} {xs : List Value} (items : v.items? s = some xs) :
    ∃ t, s.Consumed v t ∧ exec (Run.sorted v) s = (.ok (.list (Items.sort xs)), t) ∧
      (xs ≠ [] → ∃ least greatest,
        exec (Run.extremum .min v) s = (.ok least, t) ∧ (Items.sort xs)[0]? = some least ∧
        xs.find? (fun x => xs.all fun y => y.cmp x != .lt) = some least ∧
        exec (Run.extremum .max v) s = (.ok greatest, t) ∧
        xs.find? (fun x => xs.all fun y => y.cmp x != .gt) = some greatest ∧
        ∃ below level, Items.sort xs = below ++ greatest :: level ∧ (∀ y ∈ below, y.cmp greatest = .lt) ∧
          ∀ y ∈ level, y.cmp greatest = .eq) ∧
      (xs = [] → Items.sort xs = [] ∧
        ∀ which, ∃ e, exec (Run.extremum which v) s = (.error e, t) ∧ e.category = .valueError) := by
  obtain ⟨i, t, enters⟩ := Value.exists_enters items
  refine ⟨_, enters.consumed, enters.exec_sorted, ?_, ?_⟩
  · intro present
    obtain ⟨x, rest, rfl⟩ := List.exists_cons_of_ne_nil present
    have chosen (e : Extremum) : e.Chooses (x :: rest) (rest.foldl e.choose x) :=
      (Extremum.Chooses.singleton e x).run rest
    have answer (e : Extremum) :
        exec (Run.extremum e v) s = (.ok (rest.foldl e.choose x), t.skip i (x :: rest).length) := by
      rw [enters.exec_extremum, e.foldl_choose]
      rfl
    refine ⟨_, _, answer .min, ?_, (chosen .min).find?_eq, answer .max, (chosen .max).find?_eq,
      Items.sort_eq_append (chosen .max)⟩
    rw [← List.head?_eq_getElem?, Items.head?_sort (chosen .min)]
  · rintro rfl
    exact ⟨List.mergeSort_nil, fun which => ⟨_, enters.exec_extremum which, rfl⟩⟩

/-- The number is the least item and the truth value, equal to it, is not; of two dicts in one place the first is
the greatest item. -/
theorem medley_extrema :
    (∃ t, exec (Run.extremum .min (.iter 0)) Medley.store = (.ok (.int 1), t) ∧
      exec (Run.extremum .max (.iter 0)) Medley.store = (.ok Medley.empty, t) ∧ (t.cursor 0).remaining = 0) ∧
    (Items.sort Medley.items)[0]? = some (.int 1) ∧
    (∃ below level, Items.sort Medley.items = below ++ Medley.empty :: level ∧
      ∀ y ∈ level, y.cmp Medley.empty = .eq) ∧
    ∃ e t, exec (Run.extremum .max (.list [])) Medley.store = (.error e, t) ∧ e.category = .valueError := by
  obtain ⟨t, consumed, -, present, -⟩ := extrema_agree_with_sorted Medley.items_walk
  obtain ⟨least, greatest, min, first, lowest, max, highest, below, level, parts, -, tied⟩ := present nofun
  obtain rfl : Value.int 1 = least := Option.some.inj lowest
  obtain rfl : Medley.empty = greatest := Option.some.inj highest
  obtain ⟨u, -, -, -, absent⟩ := extrema_agree_with_sorted (Value.items?_list Medley.store [])
  obtain ⟨e, failed, category⟩ := (absent rfl).2 .max
  exact ⟨⟨t, min, max, consumed.exhausted 0 rfl⟩, first, ⟨below, level, parts, tied⟩, e, u, failed, category⟩

end DynamicValues
