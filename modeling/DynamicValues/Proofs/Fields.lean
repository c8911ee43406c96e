import DynamicValues.Host.Basic
import DynamicValues.Proofs.Order
import Mathlib.Data.List.Dedup
import Mathlib.Data.List.Nodup

/-!
The fields of an object. Putting fields into an object one after the other leaves, in the order of the
names, the last field of each name.
-/

set_option autoImplicit false

namespace DynamicValues

theorem Text.cmp_swap (s t : Text) : s.cmp t = (t.cmp s).swap := Std.OrientedCmp.eq_swap

theorem Text.ne_of_cmp_lt {s t : Text} (h : s.cmp t = .lt) : s ≠ t := by
  rintro rfl
  rw [cmp_eq_iff.2 rfl] at h
  cases h

namespace Fields

variable {α β : Type}

/-- In strictly ascending order of the names, so that no name comes twice. -/
abbrev Sorted (fields : List (Text × α)) : Prop := fields.Pairwise fun f g => f.1.cmp g.1 = .lt

/-- The field is there, and no later one has its name. -/
def Last (f : Text × α) (fields : List (Text × α)) : Prop :=
  ∃ before after, fields = before ++ f :: after ∧ ∀ g ∈ after, g.1 ≠ f.1

/-- The last field of each name, in the order of the names. -/
def settle (fields : List (Text × α)) : List (Text × α) :=
  (fields.pwFilter fun f g => f.1 ≠ g.1).mergeSort fun f g => (f.1.cmp g.1).isLE

theorem Sorted.distinct {fields : List (Text × α)} (h : Sorted fields) :
    fields.Pairwise fun f g => f.1 ≠ g.1 :=
  h.imp Text.ne_of_cmp_lt

theorem Sorted.nodup {fields : List (Text × α)} (h : Sorted fields) : fields.Nodup := by
  apply h.distinct.imp
  rintro f g names rfl
  exact names rfl

/-- Sorted fields are known by what they hold. -/
theorem Sorted.ext {l₁ l₂ : List (Text × α)} (h₁ : Sorted l₁) (h₂ : Sorted l₂)
    (same : ∀ f, f ∈ l₁ ↔ f ∈ l₂) : l₁ = l₂ := by
  have perm : l₁.Perm l₂ := (List.perm_ext_iff_of_nodup h₁.nodup h₂.nodup).2 same
  refine perm.eq_of_pairwise ?_ h₁ h₂
  intro f g _ _ before after
  rw [Text.cmp_swap, after] at before
  cases before

theorem last_cons {f g : Text × α} {fields : List (Text × α)} :
    Last f (g :: fields) ↔ Last f fields ∨ f = g ∧ ∀ k ∈ fields, k.1 ≠ f.1 := by
  constructor
  · rintro ⟨before, after, split, later⟩
    cases before with
    | nil =>
      obtain ⟨rfl, rfl⟩ := List.cons.inj split
      exact .inr ⟨rfl, later⟩
    | cons b before =>
      obtain ⟨rfl, rfl⟩ := List.cons.inj split
      exact .inl ⟨before, after, rfl, later⟩
  · rintro (⟨before, after, rfl, later⟩ | ⟨rfl, later⟩)
    · exact ⟨g :: before, after, rfl, later⟩
    · exact ⟨[], fields, rfl, later⟩

section Settle

variable {fields : List (Text × α)}

theorem mem_settle {f : Text × α} : f ∈ settle fields ↔ Last f fields := by
  rw [settle, List.mem_mergeSort]
  induction fields with
  | nil => simp [Last]
  | cons g fields ih =>
    have remaining : (∀ k ∈ fields.pwFilter fun f g => f.1 ≠ g.1, g.1 ≠ k.1) ↔ ∀ k ∈ fields, g.1 ≠ k.1 := by
      apply List.forall_mem_pwFilter
      intro x y z apart
      by_contra both
      push Not at both
      exact apart (both.1.trans both.2)
    rw [last_cons, ← ih]
    by_cases fresh : ∀ k ∈ fields, g.1 ≠ k.1
    · rw [List.pwFilter_cons_of_pos (remaining.2 fresh), List.mem_cons]
      constructor
      · rintro (rfl | later)
        · exact .inr ⟨rfl, fun k hk => (fresh k hk).symm⟩
        · exact .inl later
      · rintro (later | ⟨rfl, -⟩)
        · exact .inr later
        · exact .inl rfl
    · rw [List.pwFilter_cons_of_neg (mt remaining.1 fresh)]
      constructor
      · exact .inl
      · rintro (later | ⟨rfl, names⟩)
        · exact later
        · exact absurd (fun k hk => (names k hk).symm) fresh

theorem sorted_settle (fields : List (Text × α)) : Sorted (settle fields) := by
  have ascending : (settle fields).Pairwise fun f g => (f.1.cmp g.1).isLE = true := by
    apply List.pairwise_mergeSort
    · intro f g k
      exact Std.TransCmp.isLE_trans
    · intro f g
      rw [Text.cmp_swap g.1]
      cases f.1.cmp g.1 <;> rfl
  have distinct : (settle fields).Pairwise fun f g => f.1 ≠ g.1 :=
    (List.pairwise_pwFilter fields).perm (List.mergeSort_perm _ _).symm fun h => h.symm
  refine (ascending.and distinct).imp ?_
  rintro f g ⟨le, ne⟩
  have := mt Text.cmp_eq_iff.1 ne
  revert le this
  cases f.1.cmp g.1 <;> simp

theorem settle_of_sorted (h : Sorted fields) : settle fields = fields := by
  rw [settle, List.pwFilter_eq_self.2 h.distinct]
  apply List.mergeSort_of_pairwise
  exact h.imp fun less => by rw [less]; rfl

theorem settle_map (g : α → β) (fields : List (Text × α)) :
    settle (fields.map fun f => (f.1, g f.2)) = (settle fields).map fun f => (f.1, g f.2) := by
  rw [settle, List.pwFilter_map, settle, List.map_mergeSort]
  intro f _ k _
  rfl

end Settle

section Insertion

variable {name : Text} {h : Host} {fields : List (Text × Host)}

theorem mem_insertField {f : Text × Host} (sorted : Sorted fields) :
    f ∈ Host.insertField name h fields ↔ f = (name, h) ∨ f ∈ fields ∧ f.1 ≠ name := by
  induction fields with
  | nil => simp [Host.insertField]
  | cons g fields ih =>
    obtain ⟨other, k⟩ := g
    obtain ⟨head, tail⟩ := List.pairwise_cons.1 sorted
    rw [Host.insertField]
    cases order : name.cmp other with
    | lt =>
      have after : ∀ f ∈ (other, k) :: fields, f.1 ≠ name := by
        intro f hf
        rcases List.mem_cons.1 hf with rfl | hf
        · exact (Text.ne_of_cmp_lt order).symm
        · exact (Text.ne_of_cmp_lt (Std.TransCmp.lt_trans order (head f hf))).symm
      rw [List.mem_cons]
      exact or_congr_right ⟨fun hf => ⟨hf, after f hf⟩, And.left⟩
    | eq =>
      obtain rfl := Text.cmp_eq_iff.1 order
      have after : ∀ f ∈ fields, f.1 ≠ name := fun f hf => (Text.ne_of_cmp_lt (head f hf)).symm
      simp only [List.mem_cons]
      constructor
      · rintro (rfl | hf)
        · exact .inl rfl
        · exact .inr ⟨.inr hf, after f hf⟩
      · rintro (rfl | ⟨rfl | hf, names⟩)
        · exact .inl rfl
        · exact absurd rfl names
        · exact .inr hf
    | gt =>
      have before : other ≠ name := by
        rintro rfl
        rw [Text.cmp_eq_iff.2 rfl] at order
        cases order
      simp only [List.mem_cons, ih tail]
      constructor
      · rintro (rfl | rfl | ⟨hf, names⟩)
        · exact .inr ⟨.inl rfl, before⟩
        · exact .inl rfl
        · exact .inr ⟨.inr hf, names⟩
      · rintro (rfl | ⟨rfl | hf, names⟩)
        · exact .inr (.inl rfl)
        · exact .inl rfl
        · exact .inr (.inr ⟨hf, names⟩)

theorem sorted_insertField (name : Text) (h : Host) (sorted : Sorted fields) :
    Sorted (Host.insertField name h fields) := by
  induction fields with
  | nil => simp [Host.insertField]
  | cons g fields ih =>
    obtain ⟨other, k⟩ := g
    obtain ⟨head, tail⟩ := List.pairwise_cons.1 sorted
    rw [Host.insertField]
    cases order : name.cmp other with
    | lt =>
      refine List.pairwise_cons.2 ⟨?_, sorted⟩
      intro f hf
      rcases List.mem_cons.1 hf with rfl | hf
      · exact order
      · exact Std.TransCmp.lt_trans order (head f hf)
    | eq =>
      obtain rfl := Text.cmp_eq_iff.1 order
      exact List.pairwise_cons.2 ⟨head, tail⟩
    | gt =>
      refine List.pairwise_cons.2 ⟨?_, ih tail⟩
      intro f hf
      rcases (mem_insertField tail).1 hf with rfl | ⟨hf, -⟩
      · rw [Text.cmp_swap, order]
        rfl
      · exact head f hf

/-- Fields put into sorted ones stay if no later one has their name. -/
theorem sorted_putFields {sorted : List (Text × Host)} (ascending : Sorted sorted)
    (fields : List (Text × Host)) :
    Sorted (Host.putFields sorted fields) ∧
      ∀ f, f ∈ Host.putFields sorted fields ↔ Last f fields ∨ f ∈ sorted ∧ ∀ g ∈ fields, g.1 ≠ f.1 := by
  induction fields generalizing sorted with
  | nil => simp [Host.putFields, Last, ascending]
  | cons g fields ih =>
    obtain ⟨order, mem⟩ := ih (sorted_insertField g.1 g.2 ascending)
    refine ⟨order, fun f => ?_⟩
    rw [Host.putFields, List.foldl_cons, ← Host.putFields, mem, mem_insertField ascending, last_cons, List.forall_mem_cons]
    constructor
    · rintro (later | ⟨rfl | ⟨old, names⟩, rest⟩)
      · exact .inl (.inl later)
      · exact .inl (.inr ⟨rfl, rest⟩)
      · exact .inr ⟨old, names.symm, rest⟩
    · rintro ((later | ⟨rfl, rest⟩) | ⟨old, names, rest⟩)
      · exact .inl later
      · exact .inr ⟨.inl rfl, rest⟩
      · exact .inr ⟨.inr ⟨old, names.symm⟩, rest⟩

theorem putFields_concat (sorted fields : List (Text × Host)) (name : Text) (h : Host) :
    Host.putFields sorted (fields ++ [(name, h)]) = Host.insertField name h (Host.putFields sorted fields) := by
  rw [Host.putFields, List.foldl_append]
  rfl

theorem putFields_eq (fields : List (Text × Host)) : Host.putFields [] fields = settle fields := by
  obtain ⟨sorted, mem⟩ := sorted_putFields .nil fields
  refine sorted.ext (sorted_settle fields) fun f => ?_
  rw [mem, mem_settle]
  simp

end Insertion
end Fields
end DynamicValues
