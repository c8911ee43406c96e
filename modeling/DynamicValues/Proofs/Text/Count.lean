import DynamicValues.Proofs.Text.Search
import Mathlib.Data.Finset.Card
import Mathlib.Data.Finset.Image

/-!
Counting occurrences that do not overlap. Taking the leftmost one each time takes as many as can be taken: in
any other choice, at most one place overlaps the leftmost one, and all others are left.
-/

set_option autoImplicit false

namespace DynamicValues.Text

/-- No two of the places are closer than `width`. -/
def Apart (width : Nat) (chosen : Finset Nat) : Prop :=
  ∀ i ∈ chosen, ∀ j ∈ chosen, i < j → i + width ≤ j

/-- The numbers of places that can be chosen so far apart. -/
def packings (width : Nat) (found : Set Nat) : Set Nat :=
  {n | ∃ chosen : Finset Nat, ↑chosen ⊆ found ∧ Apart width chosen ∧ chosen.card = n}

section Packings

variable {width first n : Nat} {found : Set Nat} {chosen : Finset Nat}

theorem Apart.mono {fewer : Finset Nat} (h : Apart width chosen) (subset : fewer ⊆ chosen) : Apart width fewer :=
  fun i hi j hj => h i (subset hi) j (subset hj)

theorem isGreatest_packings_empty (width : Nat) : IsGreatest (packings width ∅) 0 := by
  refine ⟨⟨∅, by simp, by simp [Apart], Finset.card_empty⟩, ?_⟩
  rintro n ⟨chosen, none, -, rfl⟩
  rw [Set.subset_empty_iff, Finset.coe_eq_empty] at none
  rw [none, Finset.card_empty]

theorem apart_image_add (k : Nat) : Apart width (chosen.image (k + ·)) ↔ Apart width chosen := by
  simp only [Apart, Finset.forall_mem_image]
  refine forall₂_congr fun i _ => forall₂_congr fun j _ => ?_
  rw [Nat.add_lt_add_iff_left, Nat.add_assoc, Nat.add_le_add_iff_left]

theorem packings_image_add (width k : Nat) (found : Set Nat) :
    packings width ((k + ·) '' found) = packings width found := by
  have injective : Function.Injective (k + ·) := fun _ _ => Nat.add_left_cancel
  ext n
  constructor
  · rintro ⟨moved, within, apart, rfl⟩
    obtain ⟨chosen, subset, rfl⟩ := Finset.subset_set_image_iff.1 within
    exact ⟨chosen, subset, (apart_image_add k).1 apart, (Finset.card_image_of_injective _ injective).symm⟩
  · rintro ⟨chosen, subset, apart, rfl⟩
    exact ⟨chosen.image (k + ·), Finset.subset_set_image_iff.2 ⟨chosen, subset, rfl⟩,
      (apart_image_add k).2 apart, Finset.card_image_of_injective _ injective⟩

/-- The places behind the first one, with the room that it takes. -/
def behind (width first : Nat) (found : Set Nat) : Set Nat := {i | i ∈ found ∧ first + width ≤ i}

theorem succ_mem_packings (least : IsLeast found first) (pos : 0 < width)
    (h : n ∈ packings width (behind width first found)) : n + 1 ∈ packings width found := by
  obtain ⟨chosen, subset, apart, rfl⟩ := h
  have later : ∀ i ∈ chosen, first + width ≤ i := fun i hi => (subset hi).2
  have new : first ∉ chosen := fun hi => by
    have := later first hi
    omega
  refine ⟨insert first chosen, ?_, ?_, Finset.card_insert_of_notMem new⟩
  · rw [Finset.coe_insert]
    exact Set.insert_subset least.1 fun i hi => (subset hi).1
  · intro i hi j hj less
    rcases Finset.mem_insert.1 hj with rfl | old'
    · rcases Finset.mem_insert.1 hi with rfl | old
      · omega
      · have := later i old
        omega
    · rcases Finset.mem_insert.1 hi with rfl | old
      · exact later j old'
      · exact apart i old j old' less

/-- The exchange: the chosen places that overlap the first one overlap each other, so that there is at most
one of them. -/
theorem card_le_of_apart (least : IsLeast found first) (subset : ↑chosen ⊆ found) (apart : Apart width chosen) :
    chosen.card ≤ (chosen.filter (first + width ≤ ·)).card + 1 := by
  have few : (chosen.filter fun i => ¬first + width ≤ i).card ≤ 1 := by
    refine Finset.card_le_one.2 fun i hi j hj => ?_
    obtain ⟨hi, near⟩ := Finset.mem_filter.1 hi
    obtain ⟨hj, near'⟩ := Finset.mem_filter.1 hj
    have front := least.2 (subset hi)
    have front' := least.2 (subset hj)
    rcases Nat.lt_trichotomy i j with less | same | less
    · have := apart i hi j hj less
      omega
    · exact same
    · have := apart j hj i hi less
      omega
  have split := Finset.card_filter_add_card_filter_not (s := chosen) (first + width ≤ ·)
  omega

theorem isGreatest_packings_of_isLeast (least : IsLeast found first) (pos : 0 < width)
    (rest : IsGreatest (packings width (behind width first found)) n) :
    IsGreatest (packings width found) (n + 1) := by
  refine ⟨succ_mem_packings least pos rest.1, ?_⟩
  rintro m ⟨chosen, subset, apart, rfl⟩
  have kept : (chosen.filter (first + width ≤ ·)).card ∈ packings width (behind width first found) := by
    refine ⟨_, fun i hi => ?_, apart.mono (Finset.filter_subset _ _), rfl⟩
    obtain ⟨hi, far⟩ := Finset.mem_filter.1 hi
    exact ⟨subset hi, far⟩
  exact Nat.le_trans (card_le_of_apart least subset apart) (Nat.succ_le_succ (rest.2 kept))

end Packings

section Greedy

variable {sub s before after : List Char} (nonempty : sub ≠ [])

theorem behind_places_of_cut? (h : cut? sub s = some (before, after)) :
    behind sub.length before.length (places sub s) = (before.length + sub.length + ·) '' places sub after := by
  have whole := eq_of_cut? h
  have inside : (before ++ sub).length ≤ s.length := by
    rw [whole]
    exact (List.prefix_append (before ++ sub) after).length_le
  have rest : s.drop (before ++ sub).length = after := by rw [whole, List.drop_left]
  rw [List.length_append] at inside rest
  ext i
  constructor
  · rintro ⟨here, far⟩
    obtain ⟨j, rfl⟩ := Nat.exists_eq_add_of_le far
    exact ⟨j, by rwa [← rest, mem_places_drop inside], rfl⟩
  · rintro ⟨j, here, rfl⟩
    rw [← rest, mem_places_drop inside] at here
    exact ⟨here, Nat.le_add_right _ j⟩

/-- Counting from the left counts as many as there can be. -/
theorem isGreatest_countDisjoint (s : List Char) :
    IsGreatest (packings sub.length (places sub s)) (countDisjoint sub nonempty s) := by
  fun_induction countDisjoint sub nonempty s with
  | case1 s missing =>
    rw [places_eq_empty_of_cut? missing]
    exact isGreatest_packings_empty _
  | case2 s before after found _ ih =>
    refine isGreatest_packings_of_isLeast (isLeast_of_cut? found) (List.length_pos_iff.2 nonempty) ?_
    rwa [behind_places_of_cut? found, packings_image_add]

end Greedy

/-- The boundaries between characters that lie between the bounds of a search. -/
def boundaries (t : Text) (start stop : Option Int64) : Finset Nat :=
  (Finset.range (t.length + 1)).filter fun i => t.searchStart start ≤ i ∧ (i : Int) ≤ t.searchStop stop

section Window

variable {t sub : Text} {start stop : Option Int64}

theorem mem_boundaries {i : Nat} :
    i ∈ t.boundaries start stop ↔ t.searchStart start ≤ i ∧ (i : Int) ≤ t.searchStop stop := by
  have within := t.searchStop_le stop
  rw [boundaries, Finset.mem_filter, Finset.mem_range]
  omega

theorem count_none (nonempty : sub.chars ≠ []) (t : Text) :
    t.count sub none none = countDisjoint sub.chars nonempty t.chars := by
  rw [count_of_window nonempty t.searchWindow_none, between_zero]

end Window

theorem slice_eq (t : Text) (s : Slice) : t.slice s = do return ⟨← Sequence.slice t.chars s⟩ := by
  rw [Text.slice, Sequence.slice, List.size_toArray, bind_assoc]
  rfl

section Count

variable {t sub : Text} {start stop : Option Int64} (small : (t.length : Int) < Word.limit)
include small

theorem isGreatest_count (nonempty : sub.chars ≠ []) :
    IsGreatest (packings sub.length (t.placesWithin sub start stop)) (t.count sub start stop) := by
  cases h : t.searchWindow start stop with
  | none =>
    rw [placesWithin_of_no_window small sub h, count_of_no_window h]
    exact isGreatest_packings_empty _
  | some window =>
    rw [placesWithin_of_window small sub h, packings_image_add, count_of_window nonempty h]
    exact isGreatest_countDisjoint nonempty _

theorem count_eq_zero_of_narrow (nonempty : sub.chars ≠ []) (narrow : t.searchStop stop ≤ t.searchStart start) :
    t.count sub start stop = 0 := by
  have pos : 0 < sub.length := List.length_pos_iff.2 nonempty
  have empty : t.placesWithin sub start stop = ∅ := by
    rw [Set.eq_empty_iff_forall_notMem]
    rintro i ⟨front, back, -⟩
    omega
  have greatest : IsGreatest _ (t.count sub start stop) := isGreatest_count small nonempty
  rw [empty] at greatest
  exact greatest.unique (isGreatest_packings_empty _)

theorem slice_eq_between :
    t.slice ⟨start, stop, none⟩ =
      .ok ⟨t.between (Slice.window start stop t.length).1 (Slice.window start stop t.length).2⟩ := by
  rw [slice_eq, Sequence.slice_unit t.chars start stop small]
  rfl

/-- A start past the end leaves no window but an empty slice, which makes no difference to a text that has
characters. -/
theorem count_eq_count_slice (nonempty : sub.chars ≠ []) :
    t.count sub start stop =
      count ⟨t.between (Slice.window start stop t.length).1 (Slice.window start stop t.length).2⟩ sub none none := by
  rw [count_none nonempty]
  cases h : t.searchWindow start stop with
  | none =>
    have nothing : t.between (Slice.window start stop t.length).1 (Slice.window start stop t.length).2 = [] := by
      apply List.drop_eq_nil_of_le
      exact Nat.le_trans (List.length_take_le _ _) (window_of_no_window small h)
    rw [count_of_no_window h, nothing]
    exact (countDisjoint_of_cut?_eq_none nonempty (cut?_eq_none_iff.2 (places_nil_eq_empty nonempty))).symm
  | some window => rw [count_of_window nonempty h, window_of_searchWindow h]

theorem count_of_inverted (inverted : t.searchStop stop < t.searchStart start) (sub : Text) :
    t.count sub start stop = 0 := by
  apply count_of_no_window
  rw [searchWindow_eq small, if_neg (Int.not_le.2 inverted)]

theorem boundaries_of_window {lo hi : Nat} (h : t.searchWindow start stop = some (lo, hi)) :
    t.boundaries start stop = (Finset.range (hi - lo + 1)).image (lo + ·) := by
  obtain ⟨first, last, ordered, -⟩ := bounds_of_searchWindow small h
  ext i
  rw [mem_boundaries, first, last, Finset.mem_image]
  constructor
  · rintro ⟨front, back⟩
    obtain ⟨j, rfl⟩ := Nat.exists_eq_add_of_le (Int.ofNat_le.1 front)
    exact ⟨j, Finset.mem_range.2 (by omega), rfl⟩
  · rintro ⟨j, near, rfl⟩
    have := Finset.mem_range.1 near
    exact ⟨Int.ofNat_le.2 (Nat.le_add_right lo j), Int.ofNat_le.2 (by omega)⟩

theorem count_of_empty (empty : sub.chars = []) : t.count sub start stop = (t.boundaries start stop).card := by
  cases h : t.searchWindow start stop with
  | none =>
    have inverted := searchStop_lt_of_no_window small h
    have nothing : t.boundaries start stop = ∅ := by
      rw [Finset.eq_empty_iff_forall_notMem]
      intro i here
      have := mem_boundaries.1 here
      omega
    rw [count_of_no_window h, nothing, Finset.card_empty]
  | some window =>
    have injective : Function.Injective (window.1 + ·) := fun _ _ => Nat.add_left_cancel
    rw [boundaries_of_window small h, Finset.card_image_of_injective _ injective, Finset.card_range]
    exact count_of_window_of_empty empty h

end Count

/-- The count is the largest number of occurrences between the bounds that do not overlap, and that of the text
which the bounds cut out. An empty text is counted once at each boundary between the bounds. The length of the
text is a word, as that of every text in memory. -/
theorem count_greatest_packing (t : Text) (start stop : Option Int64)
    (small : (t.length : Int) ≤ Int64.maxValue.toInt) :
    (∀ sub : Text, sub.isEmpty = false →
      IsGreatest (packings sub.length (t.placesWithin sub start stop)) (t.count sub start stop) ∧
      (t.searchStop stop ≤ t.searchStart start → t.count sub start stop = 0) ∧
      ∃ u, t.slice ⟨start, stop, none⟩ = .ok u ∧ t.count sub start stop = u.count sub none none) ∧
    (∀ sub : Text, sub.isEmpty = true →
      t.count sub start stop = (t.boundaries start stop).card ∧
      (t.searchStop stop < t.searchStart start → t.count sub start stop = 0)) ∧
    ∀ (sub : Text) (i : Int64), start = some i → (t.length : Int) < i.toInt → t.count sub start stop = 0 := by
  have small : (t.length : Int) < Word.limit := Int.lt_of_le_of_lt small (by decide)
  refine ⟨fun sub some => ?_, fun sub none => ?_, ?_⟩
  · have nonempty : sub.chars ≠ [] := by simpa [isEmpty] using some
    exact ⟨isGreatest_count small nonempty, count_eq_zero_of_narrow small nonempty,
      _, slice_eq_between small, count_eq_count_slice small nonempty⟩
  · exact ⟨count_of_empty small (List.isEmpty_iff.1 none), fun inverted => count_of_inverted small inverted sub⟩
  · rintro sub i rfl past
    apply count_of_no_window
    rw [searchWindow, if_pos (by simpa using past)]

namespace Row

/-- Characters of one byte and of two. -/
def text : Text := ⟨['a', 'é', 'é', 'é', 'é']⟩

def sub : Text := ⟨['é', 'é']⟩

theorem count_text : text.count sub (some 1) none = 2 := by
  have nonempty : sub.chars ≠ [] := by decide
  have window : text.searchWindow (some 1) none = some (1, 5) := by decide
  have first : cut? sub.chars (text.between 1 5) = some ([], ['é', 'é']) := rfl
  have second : cut? sub.chars ['é', 'é'] = some ([], []) := rfl
  have none : cut? sub.chars [] = none := rfl
  rw [count_of_window nonempty window, countDisjoint_of_cut?_eq_some nonempty first,
    countDisjoint_of_cut?_eq_some nonempty second, countDisjoint_of_cut?_eq_none nonempty none]

end Row

/-- Of four characters in a row, two pairs and not three; the empty text has a place behind the last one. -/
theorem row_packed :
    IsGreatest (packings 2 (Row.text.placesWithin Row.sub (some 1) none)) 2 ∧
      (∃ u, Row.text.slice ⟨some 1, none, none⟩ = .ok u ∧ u.count Row.sub none none = 2) ∧
      (Row.text.boundaries (some 3) none).card = 3 ∧
      Row.text.count empty (some 6) none = 0 := by
  obtain ⟨pairs, -, -⟩ := count_greatest_packing Row.text (some 1) none (by decide)
  obtain ⟨-, boundaries, -⟩ := count_greatest_packing Row.text (some 3) none (by decide)
  obtain ⟨-, -, past⟩ := count_greatest_packing Row.text (some 6) none (by decide)
  obtain ⟨greatest, -, u, sliced, same⟩ := pairs Row.sub rfl
  rw [Row.count_text] at greatest same
  exact ⟨greatest, ⟨u, sliced, same.symm⟩, (boundaries empty rfl).1.symm, past empty 6 rfl (by decide)⟩

end DynamicValues.Text
