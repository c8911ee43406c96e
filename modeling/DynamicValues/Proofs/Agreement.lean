import DynamicValues.Proofs.Equality

/-!
Equal values compare equal. The converse fails only for what the order does not look into: NaNs, dicts,
slices and iterators.
-/

set_option autoImplicit false

namespace DynamicValues.Value

variable {w : World}

theorem cmpItems_eq_of_forall₂ {xs ys : List Value} (h : List.Forall₂ (fun x y => x.cmp y = .eq) xs ys) :
    cmpItems xs ys = .eq := by
  induction h with
  | nil => rfl
  | cons head _ ih =>
    rw [cmpItems, head, ih]
    rfl

theorem forall₂_of_cmpItems_eq {xs ys : List Value} (h : cmpItems xs ys = .eq) :
    List.Forall₂ (fun x y => x.cmp y = .eq) xs ys := by
  induction xs generalizing ys with
  | nil => cases ys with
    | nil => exact .nil
    | cons y ys => cases h
  | cons x xs ih => cases ys with
    | nil => cases h
    | cons y ys =>
      rw [cmpItems, Ordering.then_eq_eq] at h
      exact .cons h.1 (ih h.2)

theorem cmp_eq_of_beq {a b : Value} (ha : a.Sound w) (hb : b.Sound w) (h : (a == b) = true) :
    a.cmp b = .eq := by
  induction a using induction_on_parts generalizing b with
  | step a ih =>
    cases same_of_beq h with
    | none => rfl
    | number hx hy atX atY => rw [cmp_of_number hx hy, atX, atY, Number.cmpPlace_eq_iff]
    | text t => exact cmp_self _
    | shared i xs ys =>
      rw [items_eq_of_storage_eq ha hb]
      exact cmp_self _
    | tuple items =>
      exact cmpItems_eq_of_forall₂
        (forall₂_imp_of_mem (fun x hx y hy same => ih x hx (ha.part hx) (hb.part hy) same) items)
    | list items =>
      exact cmpItems_eq_of_forall₂
        (forall₂_imp_of_mem (fun x hx y hy same => ih x hx (ha.part hx) (hb.part hy) same) items)
    | dict _ _ => rfl
    | slice s => exact cmp_self _
    | iter i => exact cmp_self _

/-- The values that the order does not tell apart from others of their kind. -/
def Vague : Value → Prop
  | .float x => x.isNaN = true
  | .dict _ | .slice _ | .iter _ => True
  | _ => False

/-- Nothing vague is inside, at any depth. -/
def Definite (v : Value) : Prop := ∀ x, Within parts x v → ¬x.Vague

theorem Definite.of_parts {v : Value} (own : ¬v.Vague) (parts : ∀ x ∈ v.parts, x.Definite) : v.Definite := by
  intro x hx
  cases hx with
  | here => exact own
  | deeper mem inner => exact parts _ mem x inner

theorem Definite.part {v x : Value} (h : v.Definite) (mem : x ∈ v.parts) : x.Definite :=
  fun y hy => h y (.deeper mem hy)

theorem rank_eq_of_cmp_eq {a b : Value} (h : a.cmp b = .eq) : a.kind.rank = b.kind.rank := by
  by_contra ranks
  rw [cmp_of_rank_ne ranks, compare_eq_iff_eq] at h
  exact ranks h

theorem Definite.place {v : Value} {x : Number} (h : v.Definite) (number : v.number? = some x) :
    ∃ place, x.units? = some place := by
  have own := h v .here
  cases v with
  | bool b =>
    cases number
    exact ⟨_, rfl⟩
  | int n =>
    cases number
    exact ⟨_, rfl⟩
  | float y =>
    cases number
    have real : y.isNaN = false := Bool.eq_false_iff.2 own
    exact ⟨_, Number.units?_float_eq_some_iff.2 ⟨real, rfl⟩⟩
  | _ => cases number

theorem beq_of_cmp_eq {a b : Value} (ha : a.Definite) (h : a.cmp b = .eq) : (a == b) = true := by
  induction a using induction_on_parts generalizing b with
  | step a ih =>
    have ranks := rank_eq_of_cmp_eq h
    rw [beq_iff_same]
    cases a.aspect with
    | @number _ x hx =>
      obtain ⟨y, hy⟩ := exists_number_of_rank (ranks.symm.trans (rank_of_number hx))
      obtain ⟨place, atX⟩ := ha.place hx
      rw [cmp_of_number hx hy, Number.cmpPlace_eq_iff] at h
      exact .number hx hy atX (h.symm.trans atX)
    | text s =>
      obtain ⟨t, rfl⟩ := exists_text_of_rank ranks.symm
      rw [cmp_str, Text.cmp_eq_iff] at h
      exact h ▸ .text s
    | tuple i xs =>
      obtain ⟨j, ys, rfl⟩ := exists_tuple_of_rank ranks.symm
      exact .tuple (forall₂_imp_of_mem (fun x hx y _ same => ih x hx (ha.part hx) same)
        (forall₂_of_cmpItems_eq h))
    | list xs =>
      obtain ⟨ys, rfl⟩ := exists_list_of_rank ranks.symm
      exact .list (forall₂_imp_of_mem (fun x hx y _ same => ih x hx (ha.part hx) same)
        (forall₂_of_cmpItems_eq h))
    | rankOnly kinds =>
      have own := ha a .here
      cases a with
      | none => cases b <;> cases ranks; exact .none
      | dict d => exact absurd trivial own
      | slice s => exact absurd trivial own
      | iter i => exact absurd trivial own
      | _ => simp [kind] at kinds

end DynamicValues.Value
