import DynamicValues.Proofs.Items
import DynamicValues.Proofs.Slice
import DynamicValues.Proofs.Text.Occurrence

/-!
Searches in sequences. All of them ask where an item stands that is equal to a given value. Between bounds, that is the
same question about the slice with these bounds, with all places moved by its start. Removing a value takes out the
item at the first place.
-/

set_option autoImplicit false

namespace DynamicValues

namespace Sequence

variable {α : Type} [BEq α] {xs : List α} {x : α} {lo hi p : Nat}

/-- The positions between two bounds whose items are equal to a value. -/
def places (xs : List α) (x : α) (lo hi : Nat) : Set Nat := {i | lo ≤ i ∧ i < hi ∧ ∃ y ∈ xs[i]?, (y == x) = true}

theorem finds_findIdx? (xs : List α) (x : α) :
    Text.Finds IsLeast (places xs x 0 xs.length) (xs.findIdx? (· == x)) := by
  cases h : xs.findIdx? (· == x) with
  | none =>
    refine .missing (Set.eq_empty_iff_forall_notMem.2 ?_)
    rintro i ⟨-, -, y, here, equal⟩
    have missing := List.findIdx?_eq_none_iff.1 h y (List.mem_of_getElem? here)
    rw [missing] at equal
    cases equal
  | some p =>
    obtain ⟨inside, equal, earlier⟩ := List.findIdx?_eq_some_iff_getElem.1 h
    refine .place ⟨⟨Nat.zero_le p, inside, xs[p], List.getElem?_eq_getElem inside, equal⟩, ?_⟩
    rintro i ⟨-, inside', y, here, equal'⟩
    by_contra before
    have before := Nat.lt_of_not_le before
    obtain ⟨_, rfl⟩ := List.getElem?_eq_some_iff.1 here
    exact earlier i before equal'

/-- The places in a window of the items are those between its bounds, counted from its start. -/
theorem image_places_window (inside : hi ≤ xs.length) (x : α) :
    (lo + ·) '' places ((xs.take hi).drop lo) x 0 ((xs.take hi).drop lo).length = places xs x lo hi := by
  ext i
  constructor
  · rintro ⟨j, ⟨-, short, y, here, equal⟩, rfl⟩
    rw [List.length_drop, List.length_take, Nat.min_eq_left inside] at short
    have within : lo + j < hi := by omega
    rw [List.getElem?_drop, List.getElem?_take_of_lt within] at here
    exact ⟨Nat.le_add_right lo j, within, y, here, equal⟩
  · rintro ⟨from_lo, within, y, here, equal⟩
    have moved : lo + (i - lo) = i := by omega
    refine ⟨i - lo, ⟨Nat.zero_le _, ?_, y, ?_, equal⟩, moved⟩
    · rw [List.length_drop, List.length_take, Nat.min_eq_left inside]
      omega
    · rw [List.getElem?_drop, moved, List.getElem?_take_of_lt within]
      exact here

theorem find?_none (xs : List α) (x : α) : find? xs x none none = xs.findIdx? (· == x) := by
  have whole : Slice.window none none xs.length = (0, xs.length) := rfl
  rw [find?, whole]
  dsimp only
  rw [List.take_length, List.drop_zero]
  simp

theorem contains_eq_isSome (xs : List α) (x : α) : contains xs x = (find? xs x none none).isSome := by
  rw [find?_none, List.findIdx?_isSome]
  rfl

theorem contains_iff_count_pos : contains xs x = true ↔ 0 < count xs x := by
  rw [contains, count, List.any_eq_true, List.countP_pos_iff]

theorem find_eq_ok_iff {kind : Kind} {start stop : Option Int64} :
    find kind xs x start stop = .ok p ↔ find? xs x start stop = some p := by
  cases h : find? xs x start stop <;> simp [find, h]

theorem find_eq_error_iff {kind : Kind} {start stop : Option Int64} {e : Error} :
    find kind xs x start stop = .error e ↔ find? xs x start stop = none ∧ e = .itemNotFound kind := by
  cases h : find? xs x start stop <;> simp [find, h, eq_comm]

theorem exists_find_iff {kind : Kind} {start stop : Option Int64} :
    (∃ i, find kind xs x start stop = .ok i) ↔ (find? xs x start stop).isSome = true := by
  rw [Option.isSome_iff_exists]
  exact exists_congr fun i => find_eq_ok_iff

/-- What is found first is the first item that is equal. -/
theorem exists_of_find? (h : find? xs x none none = some p) :
    ∃ before y after, xs = before ++ y :: after ∧ before.length = p ∧ (y == x) = true ∧
      ∀ z ∈ before, (z == x) = false := by
  rw [find?_none] at h
  obtain ⟨inside, equal, earlier⟩ := List.findIdx?_eq_some_iff_getElem.1 h
  refine ⟨xs.take p, xs[p], xs.drop (p + 1), by simp, List.length_take_of_le (Nat.le_of_lt inside), equal, ?_⟩
  intro z mem
  obtain ⟨i, short, rfl⟩ := List.mem_take_iff_getElem.1 mem
  simpa using earlier i (by omega)

end Sequence

namespace Items

variable {xs zs : List Value} {x : Value}

theorem eraseIdx_length (before : List Value) (y : Value) (after : List Value) :
    (before ++ y :: after).eraseIdx before.length = before ++ after := by
  rw [List.eraseIdx_append_of_length_le (Nat.le_refl _), Nat.sub_self, List.eraseIdx_cons_zero]

/-- A removal takes out the first item that is equal. -/
theorem exists_of_remove (h : remove xs x = .ok zs) :
    ∃ before y after, xs = before ++ y :: after ∧ zs = before ++ after ∧ (y == x) = true ∧
      ∀ z ∈ before, (z == x) = false := by
  rw [remove_eq] at h
  cases found : Sequence.find? xs x none none with
  | none =>
    rw [found] at h
    cases h
  | some p =>
    rw [found] at h
    obtain ⟨before, y, after, rfl, rfl, equal, others⟩ := Sequence.exists_of_find? found
    cases h
    exact ⟨before, y, after, rfl, eraseIdx_length before y after, equal, others⟩

end Items

/-- Searches in a tuple or a list, whose kind only the error names. Between bounds, which are those of a slice, `find`
answers the least position of an item that is equal to the value, and refuses if there is none. It finds one exactly
if the slice contains the value, and then at the place in the slice, counted from its start. Containing a value,
counting some and finding one are the same. A removal lowers the count by one and leaves the other items in order. The
length of a sequence is a word, as that of every sequence in memory. -/
theorem searches_agree_with_slices (kind : Kind) (xs : List Value) (x : Value) (start stop : Option Int64)
    (small : (xs.length : Int) ≤ Int64.maxValue.toInt) :
    (∃ (r : Indices) (ys : List Value), Slice.resolve ⟨start, stop, none⟩ xs.length = .ok r ∧
      r.ends = (Slice.origin ⟨start, stop, none⟩ xs.length, Slice.goal ⟨start, stop, none⟩ xs.length) ∧
      Sequence.slice xs ⟨start, stop, none⟩ = .ok ys ∧
      (∀ i, Sequence.find kind xs x start stop = .ok i ↔ IsLeast (Sequence.places xs x r.start r.stop) i) ∧
      ((∃ e, Sequence.find kind xs x start stop = .error e ∧ e.category = .valueError) ↔
        Sequence.places xs x r.start r.stop = ∅) ∧
      ((∃ i, Sequence.find kind xs x start stop = .ok i) ↔ Sequence.contains ys x = true) ∧
      ∀ i, Sequence.find kind xs x start stop = .ok i →
        ∃ j, Sequence.find kind ys x none none = .ok j ∧ i = r.start + j) ∧
    (Sequence.contains xs x = true ↔ 0 < Sequence.count xs x) ∧
    (0 < Sequence.count xs x ↔ ∃ i, Sequence.find kind xs x none none = .ok i) ∧
    ∀ zs, Items.remove xs x = .ok zs → Sequence.count zs x + 1 = Sequence.count xs x ∧
      ∃ before y after, xs = before ++ y :: after ∧ zs = before ++ after ∧ (y == x) = true ∧
        ∀ z ∈ before, (z == x) = false := by
  have small : (xs.length : Int) < Word.limit := Int.lt_of_le_of_lt small (by decide)
  refine ⟨?_, Sequence.contains_iff_count_pos, ?_, ?_⟩
  · obtain ⟨r, resolved, -, -, inside, ends⟩ := Slice.resolve_eq (s := ⟨start, stop, none⟩) nofun small
    have window : Slice.window start stop xs.length = (r.start, r.stop) := by
      cases resolved
      rfl
    have sliced := Sequence.slice_unit xs start stop small
    have moved : Sequence.find? xs x start stop =
        (Sequence.find? ((xs.take r.stop).drop r.start) x none none).map (r.start + ·) := by
      rw [Sequence.find?, window, Sequence.find?_none]
    rw [window] at sliced
    have finds : Text.Finds IsLeast (Sequence.places xs x r.start r.stop) (Sequence.find? xs x start stop) := by
      have shifted : Monotone (r.start + ·) := fun _ _ ordered => Nat.add_le_add_left ordered _
      rw [moved, ← Sequence.image_places_window inside, Sequence.find?_none]
      exact (Sequence.finds_findIdx? _ x).map fun _ least => shifted.map_isLeast least
    refine ⟨r, _, resolved, ends, sliced, ?_, ?_, ?_, ?_⟩
    · intro i
      rw [Sequence.find_eq_ok_iff, finds.least_eq_some_iff]
    · rw [← finds.least_eq_none_iff]
      constructor
      · rintro ⟨e, refused, -⟩
        exact (Sequence.find_eq_error_iff.1 refused).1
      · intro missing
        exact ⟨_, Sequence.find_eq_error_iff.2 ⟨missing, rfl⟩, rfl⟩
    · rw [Sequence.exists_find_iff, Sequence.contains_eq_isSome, moved, Option.isSome_map]
    · intro i found
      rw [Sequence.find_eq_ok_iff, moved] at found
      obtain ⟨j, there, rfl⟩ := Option.map_eq_some_iff.1 found
      exact ⟨j, Sequence.find_eq_ok_iff.2 there, rfl⟩
  · rw [← Sequence.contains_iff_count_pos, Sequence.exists_find_iff, Sequence.contains_eq_isSome]
  · intro zs removed
    obtain ⟨before, y, after, rfl, rfl, equal, others⟩ := Items.exists_of_remove removed
    refine ⟨?_, before, y, after, rfl, rfl, equal, others⟩
    rw [Sequence.count, Sequence.count, List.countP_append, List.countP_append,
      List.countP_cons_of_pos (p := (· == x)) equal, Nat.add_assoc]

/-- A truth value stands for one, a number that is also there itself. -/
def Chorus.items : List Value := [.bool true, .int 2, .int 1, .none]

/-- Among the last two items, one is found at the third position. Removing it takes out the truth value, which is
equal to it and comes first, and one of two occurrences is left. -/
theorem chorus_searched :
    Sequence.find .list Chorus.items (.int 1) (some (-2)) none = .ok 2 ∧
      IsLeast (Sequence.places Chorus.items (.int 1) 2 4) 2 ∧
      Items.remove Chorus.items (.int 1) = .ok [.int 2, .int 1, .none] ∧
      Sequence.count [.int 2, .int 1, .none] (Value.int 1) + 1 = Sequence.count Chorus.items (.int 1) := by
  obtain ⟨⟨r, ys, resolved, -, -, least, -⟩, -, -, removed⟩ :=
    searches_agree_with_slices .list Chorus.items (.int 1) (some (-2)) none (by decide)
  have bounds : (⟨2, 4, 1⟩ : Indices) = r := Except.ok.inj resolved
  subst bounds
  exact ⟨rfl, (least 2).1 rfl, rfl, (removed _ rfl).1⟩

end DynamicValues
