import DynamicValues.Proofs.Text.Boundary
import Mathlib.Order.Bounds.Image

/-!
The places at which a text occurs in another one. A search finds the least of them, and what is known of the
places in a part of a text, or in a text read backwards, is known of the search there.
-/

set_option autoImplicit false

namespace DynamicValues.Text

/-- The positions from which the characters of `s` are those of `sub`, none of them missing. -/
def places (sub s : List Char) : Set Nat := {i | i + sub.length ≤ s.length ∧ (s.drop i).take sub.length = sub}

section Places

variable {sub s : List Char} {i k : Nat}

theorem mem_places :
    i ∈ places sub s ↔ i + sub.length ≤ s.length ∧ (s.drop i).take sub.length = sub := Iff.rfl

theorem mem_places_iff_append :
    i ∈ places sub s ↔ ∃ before after, s = before ++ sub ++ after ∧ before.length = i := by
  constructor
  · rintro ⟨inside, same⟩
    have behind := List.take_append_drop sub.length (s.drop i)
    rw [same] at behind
    refine ⟨s.take i, (s.drop i).drop sub.length, ?_, List.length_take_of_le (by omega)⟩
    rw [List.append_assoc, behind, List.take_append_drop]
  · rintro ⟨before, after, rfl, rfl⟩
    refine ⟨by simp only [List.length_append]; omega, ?_⟩
    rw [List.append_assoc, List.drop_left, List.take_left]

theorem zero_mem_places : 0 ∈ places sub s ↔ sub <+: s := by
  rw [mem_places_iff_append]
  constructor
  · rintro ⟨before, after, rfl, front⟩
    rw [List.eq_nil_of_length_eq_zero front, List.nil_append]
    exact List.prefix_append sub after
  · rintro ⟨after, rfl⟩
    exact ⟨[], after, rfl, rfl⟩

theorem succ_mem_places_cons (c : Char) : i + 1 ∈ places sub (c :: s) ↔ i ∈ places sub s := by
  rw [mem_places, mem_places, List.length_cons, List.drop_succ_cons]
  exact and_congr_left fun _ => by omega

theorem places_nil_eq_empty (nonempty : sub ≠ []) : places sub [] = ∅ := by
  have := List.length_pos_iff.2 nonempty
  rw [Set.eq_empty_iff_forall_notMem]
  rintro i ⟨inside, -⟩
  rw [List.length_nil] at inside
  omega

theorem mem_places_drop (inside : k ≤ s.length) : i ∈ places sub (s.drop k) ↔ k + i ∈ places sub s := by
  rw [mem_places, mem_places, List.length_drop, List.drop_drop]
  exact and_congr_left fun _ => by omega

theorem mem_places_take (inside : k ≤ s.length) :
    i ∈ places sub (s.take k) ↔ i + sub.length ≤ k ∧ i ∈ places sub s := by
  rw [mem_places, mem_places, List.length_take_of_le inside, List.drop_take, List.take_take]
  constructor
  · rintro ⟨before, same⟩
    rw [Nat.min_eq_left (by omega)] at same
    exact ⟨before, by omega, same⟩
  · rintro ⟨before, -, same⟩
    rw [Nat.min_eq_left (by omega)]
    exact ⟨before, same⟩

theorem mem_places_reverse :
    i ∈ places sub.reverse s.reverse ↔ ∃ j ∈ places sub s, j + sub.length + i = s.length := by
  simp only [mem_places_iff_append]
  constructor
  · rintro ⟨before, after, split, rfl⟩
    have forwards : s = after.reverse ++ sub ++ before.reverse := by
      rw [← List.reverse_inj, split]
      simp
    refine ⟨_, ⟨_, _, forwards, rfl⟩, ?_⟩
    rw [forwards]
    simp [Nat.add_assoc]
  · rintro ⟨j, ⟨before, after, rfl, rfl⟩, whole⟩
    refine ⟨after.reverse, before.reverse, by simp, ?_⟩
    simp only [List.length_append] at whole
    rw [List.length_reverse]
    omega

/-- Reading backwards turns the order of the places around. -/
theorem places_eq_image_reverse (sub s : List Char) :
    places sub s = (fun i => s.length - i - sub.length) '' places sub.reverse s.reverse := by
  ext j
  constructor
  · intro here
    have inside := here.1
    refine ⟨s.length - sub.length - j, mem_places_reverse.2 ⟨j, here, by omega⟩, ?_⟩
    dsimp only
    omega
  · rintro ⟨i, back, rfl⟩
    obtain ⟨j, here, whole⟩ := mem_places_reverse.1 back
    have same : s.length - i - sub.length = j := by omega
    dsimp only
    rwa [same]

end Places

section Cut

variable {sub s before after : List Char}

theorem isLeast_of_cut? (h : cut? sub s = some (before, after)) : IsLeast (places sub s) before.length := by
  refine ⟨mem_places_iff_append.2 ⟨before, after, eq_of_cut? h, rfl⟩, ?_⟩
  intro i here
  induction s generalizing before i with
  | nil =>
    simp only [cut?] at h
    split at h
    · cases h
      exact Nat.zero_le i
    · cases h
  | cons c s ih =>
    simp only [cut?] at h
    split at h
    · cases h
      exact Nat.zero_le i
    · next front =>
      obtain ⟨⟨b, a⟩, later, moved⟩ := Option.map_eq_some_iff.1 h
      cases moved
      cases i with
      | zero => exact absurd (List.isPrefixOf_iff_prefix.2 (zero_mem_places.1 here)) front
      | succ i => exact Nat.succ_le_succ (ih later ((succ_mem_places_cons c).1 here))

theorem places_eq_empty_of_cut? (h : cut? sub s = none) : places sub s = ∅ := by
  rw [Set.eq_empty_iff_forall_notMem]
  intro i here
  induction s generalizing i with
  | nil =>
    simp only [cut?] at h
    split at h
    · cases h
    · next nonempty =>
      rw [places_nil_eq_empty (by simpa using nonempty)] at here
      exact here
  | cons c s ih =>
    simp only [cut?] at h
    split at h
    · cases h
    · next front =>
      cases i with
      | zero => exact front (List.isPrefixOf_iff_prefix.2 (zero_mem_places.1 here))
      | succ i => exact ih (Option.map_eq_none_iff.1 h) i ((succ_mem_places_cons c).1 here)

theorem cut?_eq_none_iff : cut? sub s = none ↔ places sub s = ∅ := by
  refine ⟨places_eq_empty_of_cut?, fun empty => ?_⟩
  cases h : cut? sub s with
  | none => rfl
  | some parts =>
    have here := (isLeast_of_cut? h).1
    rw [empty] at here
    exact here.elim

end Cut

/-- What a search for the `best` of some places answers. -/
inductive Finds (best : Set Nat → Nat → Prop) (found : Set Nat) : Option Nat → Prop where
  | place {i : Nat} (h : best found i) : Finds best found (some i)
  | missing (h : found = ∅) : Finds best found none

namespace Finds

variable {best best' : Set Nat → Nat → Prop} {found : Set Nat} {o : Option Nat}

theorem map {f : Nat → Nat} (h : Finds best found o) (hf : ∀ i, best found i → best' (f '' found) (f i)) :
    Finds best' (f '' found) (o.map f) := by
  cases h with
  | place least => exact .place (hf _ least)
  | missing empty => exact .missing (by rw [empty, Set.image_empty])

theorem eq_none_iff (h : Finds best found o) (inhabited : ∀ i, best found i → found.Nonempty) :
    o = none ↔ found = ∅ := by
  cases h with
  | place least => simpa using (inhabited _ least).ne_empty
  | missing empty => simpa using empty

theorem eq_some_iff (h : Finds best found o) (inhabited : ∀ i, best found i → found.Nonempty)
    (unique : ∀ i j, best found i → best found j → i = j) {i : Nat} : o = some i ↔ best found i := by
  cases h with
  | place least =>
    rw [Option.some.injEq]
    exact ⟨fun same => same ▸ least, unique _ _ least⟩
  | missing empty =>
    refine ⟨nofun, fun here => ?_⟩
    exact absurd empty (inhabited i here).ne_empty

section Least

variable (h : Finds IsLeast found o)
include h

theorem least_eq_none_iff : o = none ↔ found = ∅ := h.eq_none_iff fun _ least => least.nonempty

theorem least_eq_some_iff {i : Nat} : o = some i ↔ IsLeast found i :=
  h.eq_some_iff (fun _ least => least.nonempty) fun _ _ least least' => least.unique least'

end Least

section Greatest

variable (h : Finds IsGreatest found o)
include h

theorem greatest_eq_none_iff : o = none ↔ found = ∅ := h.eq_none_iff fun _ greatest => greatest.nonempty

theorem greatest_eq_some_iff {i : Nat} : o = some i ↔ IsGreatest found i :=
  h.eq_some_iff (fun _ greatest => greatest.nonempty) fun _ _ greatest greatest' => greatest.unique greatest'

end Greatest

end Finds

theorem finds_firstIndex? (sub s : List Char) : Finds IsLeast (places sub s) (firstIndex? sub s) := by
  cases h : cut? sub s with
  | none =>
    rw [firstIndex?, h]
    exact .missing (places_eq_empty_of_cut? h)
  | some parts =>
    rw [firstIndex?, h]
    exact .place (isLeast_of_cut? h)

end DynamicValues.Text
