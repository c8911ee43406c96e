import DynamicValues.Proofs.Number
import DynamicValues.Proofs.Parts
import DynamicValues.Value.Order

/-!
The order of values is a total preorder. Ranks decide between values of different rank; among values of
one rank numbers go by their places, texts by their characters, and tuples and lists by their items, so
the laws pass from the items to the values that hold them.
-/

set_option autoImplicit false

namespace DynamicValues

namespace Text

instance : Std.OrientedCmp cmp where
  eq_swap {s t} := by
    unfold cmp
    exact Std.OrientedCmp.eq_swap

instance : Std.TransCmp cmp where
  isLE_trans {s t u} hst htu := by
    unfold cmp at *
    exact Std.TransCmp.isLE_trans hst htu

theorem cmp_eq_iff {s t : Text} : s.cmp t = .eq ↔ s = t := by
  cases s
  cases t
  simp [cmp]

end Text

namespace Value

/-- What the order looks at in a value. -/
inductive Aspect : Value → Prop
  | number {v : Value} {x : Number} : v.number? = some x → Aspect v
  | text (t : Text) : Aspect (.str t)
  | tuple (storage : Nat) (items : List Value) : Aspect (.tuple storage items)
  | list (items : List Value) : Aspect (.list items)
  | rankOnly {v : Value} : v.kind ∈ [Kind.none, .dict, .slice, .iter] → Aspect v

theorem aspect (v : Value) : Aspect v := by
  cases v with
  | bool b => exact .number rfl
  | int n => exact .number rfl
  | float x => exact .number rfl
  | str t => exact .text t
  | tuple i xs => exact .tuple i xs
  | list xs => exact .list xs
  | _ => exact .rankOnly (by simp [kind])

theorem cmp_of_rankOnly {a : Value} (h : a.kind ∈ [Kind.none, .dict, .slice, .iter]) (b : Value) :
    a.cmp b = compare a.kind.rank b.kind.rank := by
  cases a <;> simp [kind] at h <;> rfl

theorem cmp_of_rankOnly_right {b : Value} (h : b.kind ∈ [Kind.none, .dict, .slice, .iter]) (a : Value) :
    a.cmp b = compare a.kind.rank b.kind.rank := by
  cases b <;> simp [kind] at h <;> cases a <;> rfl

theorem cmp_eq_compareScalar {a : Value} {x : Number} (h : a.number? = some x) (b : Value) :
    a.cmp b = compareScalar a b := by
  cases a <;> cases h <;> rfl

theorem cmp_of_number {a b : Value} {x y : Number} (ha : a.number? = some x) (hb : b.number? = some y) :
    a.cmp b = Number.cmpPlace x.units? y.units? := by
  rw [cmp_eq_compareScalar ha, compareScalar, ha, hb, ← Number.cmp_eq_cmpPlace]

theorem rank_of_number {a : Value} {x : Number} (h : a.number? = some x) : a.kind.rank = 1 := by
  cases a <;> cases h <;> rfl

theorem number?_eq_none {a : Value} (h : a.kind.rank ≠ 1) : a.number? = Option.none := by
  cases number : a.number? with
  | none => rfl
  | some x => exact absurd (rank_of_number number) h

/-- Values of different rank are in the order of their ranks. -/
theorem cmp_of_rank_ne {a b : Value} (h : a.kind.rank ≠ b.kind.rank) :
    a.cmp b = compare a.kind.rank b.kind.rank := by
  cases a.aspect with
  | number ha =>
    rw [rank_of_number ha] at h
    rw [cmp_eq_compareScalar ha, compareScalar, ha, number?_eq_none h.symm]
    rfl
  | text s => cases b with
    | str t => exact absurd rfl h
    | _ => rfl
  | tuple i xs => cases b with
    | tuple j ys => exact absurd rfl h
    | _ => rfl
  | list xs => cases b with
    | list ys => exact absurd rfl h
    | _ => rfl
  | rankOnly ha => exact cmp_of_rankOnly ha b

theorem exists_number_of_rank {a : Value} (h : a.kind.rank = 1) : ∃ x, a.number? = some x := by
  cases a <;> cases h <;> exact ⟨_, rfl⟩

theorem exists_text_of_rank {a : Value} (h : a.kind.rank = 2) : ∃ t, a = .str t := by
  cases a <;> cases h
  exact ⟨_, rfl⟩

theorem exists_tuple_of_rank {a : Value} (h : a.kind.rank = 3) : ∃ i xs, a = .tuple i xs := by
  cases a <;> cases h
  exact ⟨_, _, rfl⟩

theorem exists_list_of_rank {a : Value} (h : a.kind.rank = 4) : ∃ xs, a = .list xs := by
  cases a <;> cases h
  exact ⟨_, rfl⟩

@[simp] theorem cmp_str (s t : Text) : (str s).cmp (str t) = s.cmp t := rfl

@[simp] theorem cmp_tuple (i j : Nat) (xs ys : List Value) :
    (tuple i xs).cmp (tuple j ys) = cmpItems xs ys := rfl

@[simp] theorem cmp_list (xs ys : List Value) : (list xs).cmp (list ys) = cmpItems xs ys := rfl

theorem cmpItems_self {xs : List Value} (h : ∀ x ∈ xs, x.cmp x = .eq) : cmpItems xs xs = .eq := by
  induction xs with
  | nil => rfl
  | cons x xs ih =>
    rw [cmpItems, h x (by simp), ih fun y hy => h y (by simp [hy])]
    rfl

theorem cmp_self (v : Value) : v.cmp v = .eq := by
  induction v using induction_on_parts with
  | step v ih =>
    cases v.aspect with
    | number h => rw [cmp_of_number h h, Number.cmpPlace_eq_iff]
    | text t => exact Text.cmp_eq_iff.2 rfl
    | tuple i xs => exact cmpItems_self ih
    | list xs => exact cmpItems_self ih
    | rankOnly h => rw [cmp_of_rankOnly h, compare_eq_iff_eq]

theorem cmpItems_swap {xs : List Value} (h : ∀ x ∈ xs, ∀ y, y.cmp x = (x.cmp y).swap) (ys : List Value) :
    cmpItems ys xs = (cmpItems xs ys).swap := by
  induction xs generalizing ys with
  | nil => cases ys <;> rfl
  | cons x xs ih =>
    cases ys with
    | nil => rfl
    | cons y ys =>
      rw [cmpItems, cmpItems, h x (by simp), ih (fun z hz => h z (by simp [hz])), Ordering.swap_then]

theorem cmp_swap (a b : Value) : b.cmp a = (a.cmp b).swap := by
  induction a using induction_on_parts generalizing b with
  | step a ih =>
    by_cases ranks : a.kind.rank = b.kind.rank
    · cases a.aspect with
      | number ha =>
        obtain ⟨y, hb⟩ := exists_number_of_rank (ranks ▸ rank_of_number ha)
        rw [cmp_of_number ha hb, cmp_of_number hb ha]
        exact Std.OrientedCmp.eq_swap
      | text s =>
        obtain ⟨t, rfl⟩ := exists_text_of_rank ranks.symm
        rw [cmp_str, cmp_str]
        exact Std.OrientedCmp.eq_swap
      | tuple i xs =>
        obtain ⟨j, ys, rfl⟩ := exists_tuple_of_rank ranks.symm
        exact cmpItems_swap ih ys
      | list xs =>
        obtain ⟨ys, rfl⟩ := exists_list_of_rank ranks.symm
        exact cmpItems_swap ih ys
      | rankOnly ha =>
        rw [cmp_of_rankOnly ha, cmp_of_rankOnly_right ha]
        exact Std.OrientedOrd.eq_swap
    · rw [cmp_of_rank_ne ranks, cmp_of_rank_ne (Ne.symm ranks)]
      exact Std.OrientedOrd.eq_swap

instance : Std.OrientedCmp cmp where
  eq_swap {a b} := cmp_swap b a

/-- Values that compare equal to the same side of a third one would have to compare equal to each
other. -/
theorem eq_of_isLE_cycle {x y z : Value} (trans : ∀ u v w : Value, u ∈ [x, y, z] → v ∈ [x, y, z] →
      w ∈ [x, y, z] → (u.cmp v).isLE → (v.cmp w).isLE → (u.cmp w).isLE)
    (hxy : (x.cmp y).isLE) (hyz : (y.cmp z).isLE) (hxz : x.cmp z = .eq) :
    x.cmp y = .eq ∧ y.cmp z = .eq := by
  have hzx : (z.cmp x).isLE := by rw [cmp_swap, hxz]; rfl
  have hyx : (y.cmp x).isLE := trans y z x (by simp) (by simp) (by simp) hyz hzx
  have hzy : (z.cmp y).isLE := trans z x y (by simp) (by simp) (by simp) hzx hxy
  rw [cmp_swap, Ordering.isLE_swap] at hyx hzy
  exact ⟨Ordering.eq_eq_of_isLE_of_isGE hxy hyx, Ordering.eq_eq_of_isLE_of_isGE hyz hzy⟩

theorem cmpItems_trans {small : Value → Prop} (trans : ∀ x y z : Value, small x → small y → small z →
      (x.cmp y).isLE → (y.cmp z).isLE → (x.cmp z).isLE) {xs ys zs : List Value}
    (hxs : ∀ x ∈ xs, small x) (hys : ∀ y ∈ ys, small y) (hzs : ∀ z ∈ zs, small z)
    (hxy : (cmpItems xs ys).isLE) (hyz : (cmpItems ys zs).isLE) : (cmpItems xs zs).isLE := by
  induction xs generalizing ys zs with
  | nil => cases zs <;> rfl
  | cons x xs ih =>
    rcases ys with _ | ⟨y, ys⟩
    · cases hxy
    rcases zs with _ | ⟨z, zs⟩
    · cases hyz
    simp only [List.forall_mem_cons] at hxs hys hzs
    simp only [cmpItems, Ordering.isLE_then_iff_and] at hxy hyz ⊢
    have heads : (x.cmp z).isLE := trans x y z hxs.1 hys.1 hzs.1 hxy.1 hyz.1
    refine ⟨heads, ?_⟩
    rcases Ordering.isLE_iff_eq_lt_or_eq_eq.1 heads with less | same
    · exact .inl less
    · have closed : ∀ u v w : Value, u ∈ [x, y, z] → v ∈ [x, y, z] → w ∈ [x, y, z] →
          (u.cmp v).isLE → (v.cmp w).isLE → (u.cmp w).isLE := by
        have three : ∀ u ∈ [x, y, z], small u := by
          simp [hxs.1, hys.1, hzs.1]
        intro u v w hu hv hw
        exact trans u v w (three u hu) (three v hv) (three w hw)
      obtain ⟨xEqY, yEqZ⟩ := eq_of_isLE_cycle closed hxy.1 hyz.1 same
      refine .inr (ih hxs.2 hys.2 hzs.2 ?_ ?_)
      · simpa [xEqY] using hxy.2
      · simpa [yEqZ] using hyz.2

theorem rank_le_of_isLE_cmp {a b : Value} (h : (a.cmp b).isLE) : a.kind.rank ≤ b.kind.rank := by
  by_cases ranks : a.kind.rank = b.kind.rank
  · exact ranks.le
  · rw [cmp_of_rank_ne ranks, Nat.isLE_compare] at h
    exact h

/-- The induction is on a bound for the sizes of all three values, since the items of each of them take
every place. -/
theorem isLE_cmp_trans_of_size (n : Nat) : ∀ a b c : Value, sizeOf a < n → sizeOf b < n → sizeOf c < n →
    (a.cmp b).isLE → (b.cmp c).isLE → (a.cmp c).isLE := by
  induction n with
  | zero =>
    intro a b c ha
    omega
  | succ n ih =>
    intro a b c ha hb hc hab hbc
    have smaller : ∀ v : Value, sizeOf v < n + 1 → ∀ x ∈ v.parts, sizeOf x < n := by
      intro v hv x hx
      have := sizeOf_lt_of_mem_parts hx
      omega
    have ab := rank_le_of_isLE_cmp hab
    have bc := rank_le_of_isLE_cmp hbc
    by_cases ranks : a.kind.rank = c.kind.rank
    · have hb' : b.kind.rank = a.kind.rank := by omega
      cases a.aspect with
      | number hx =>
        obtain ⟨y, hy⟩ := exists_number_of_rank (hb'.trans (rank_of_number hx))
        obtain ⟨z, hz⟩ := exists_number_of_rank (ranks.symm.trans (rank_of_number hx))
        rw [cmp_of_number hx hy] at hab
        rw [cmp_of_number hy hz] at hbc
        rw [cmp_of_number hx hz]
        exact Std.TransCmp.isLE_trans hab hbc
      | text s =>
        obtain ⟨t, rfl⟩ := exists_text_of_rank hb'
        obtain ⟨u, rfl⟩ := exists_text_of_rank ranks.symm
        rw [cmp_str] at *
        exact Std.TransCmp.isLE_trans hab hbc
      | tuple i xs =>
        obtain ⟨j, ys, rfl⟩ := exists_tuple_of_rank hb'
        obtain ⟨k, zs, rfl⟩ := exists_tuple_of_rank ranks.symm
        exact cmpItems_trans ih (smaller _ ha) (smaller _ hb) (smaller _ hc) hab hbc
      | list xs =>
        obtain ⟨ys, rfl⟩ := exists_list_of_rank hb'
        obtain ⟨zs, rfl⟩ := exists_list_of_rank ranks.symm
        exact cmpItems_trans ih (smaller _ ha) (smaller _ hb) (smaller _ hc) hab hbc
      | rankOnly h =>
        rw [cmp_of_rankOnly h, ranks, compare_eq_iff_eq.2 rfl]
        rfl
    · rw [cmp_of_rank_ne ranks, compare_lt_iff_lt.2 (by omega)]
      rfl

instance : Std.TransCmp cmp where
  isLE_trans {a b c} hab hbc :=
    isLE_cmp_trans_of_size (sizeOf a + sizeOf b + sizeOf c + 1) a b c (by omega) (by omega) (by omega)
      hab hbc

end Value
end DynamicValues
