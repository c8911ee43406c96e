import DynamicValues.Text.Replace

/-!
Searching in bytes is searching in characters. The offsets at which a text is cut are those of its characters, so
that what is cut out, found and counted is told by lists of characters alone.
-/

set_option autoImplicit false

namespace DynamicValues.Text

/-- The characters at the positions from `lo` up to and without `hi`. -/
def between (t : Text) (lo hi : Nat) : List Char := (t.chars.take hi).drop lo

/-- The index of the first occurrence of `sub`. -/
def firstIndex? (sub s : List Char) : Option Nat :=
  (cut? sub s).map fun (before, _) => before.length

/-- Occurrences of `sub` counted from the left without overlap. -/
def countDisjoint (sub : List Char) (nonempty : sub ≠ []) (s : List Char) : Nat :=
  match found : cut? sub s with
  | none => 0
  | some (_, after) =>
    have := length_lt_of_cut? found nonempty
    countDisjoint sub nonempty after + 1
termination_by s.length

section Disjoint

variable {sub s before after : List Char} (nonempty : sub ≠ [])

theorem countDisjoint_of_cut?_eq_none (h : cut? sub s = none) : countDisjoint sub nonempty s = 0 := by
  rw [countDisjoint]
  split
  · rfl
  · next found => cases h.symm.trans found

theorem countDisjoint_of_cut?_eq_some (h : cut? sub s = some (before, after)) :
    countDisjoint sub nonempty s = countDisjoint sub nonempty after + 1 := by
  rw [countDisjoint]
  split
  · next missing => cases h.symm.trans missing
  · next found =>
    cases h.symm.trans found
    rfl

end Disjoint

namespace Boundary

variable {s sub : List Char}

theorem cut_ofPosition (s : List Char) (n : Nat) :
    (ofPosition s n).before = s.take n ∧ (ofPosition s n).rest = s.drop n :=
  cut_eq _ (List.take_append_drop n s).symm (byteOffset_eq s n)

theorem between_eq {lo hi : Boundary s} (ordered : lo.offset ≤ hi.offset) {x y : List Char}
    (split : hi.before = x ++ y) (size : lo.offset = byteSize x) : lo.between hi ordered = y :=
  (cut_eq _ split size).2

/-- The position of the first occurrence is the number of characters before it. -/
theorem find?_start (sub s : List Char) :
    ((start s).find? sub).map (fun found => found.1.before.length) = firstIndex? sub s := by
  obtain ⟨before, rest⟩ := cut_start s
  cases cut : cut? sub s with
  | none =>
    rw [firstIndex?, cut, find?_eq_none (by rwa [rest])]
    rfl
  | some parts =>
    obtain ⟨place, behind, found, gap, -⟩ := find?_eq_some (b := start s) (by rwa [rest])
    rw [firstIndex?, cut, found, Option.map_some, Option.map_some, gap, before, List.nil_append]

theorem count_eq (nonempty : sub ≠ []) (b : Boundary s) :
    b.count sub nonempty = countDisjoint sub nonempty b.rest := by
  fun_induction count sub nonempty b with
  | case1 b missing =>
    cases cut : cut? sub b.rest with
    | none => rw [countDisjoint_of_cut?_eq_none nonempty cut]
    | some parts =>
      obtain ⟨_, _, found, -⟩ := find?_eq_some cut
      cases found.symm.trans missing
  | case2 b place behind found _ ih =>
    cases cut : cut? sub b.rest with
    | none => cases (find?_eq_none cut).symm.trans found
    | some parts =>
      obtain ⟨_, _, found', -, after⟩ := find?_eq_some cut
      cases found'.symm.trans found
      rw [countDisjoint_of_cut?_eq_some nonempty cut, ih, after]

end Boundary

variable {t sub : Text} {start stop : Option Int64} {lo hi : Nat}

theorem charRange_eq (t : Text) (ordered : lo ≤ hi) : t.charRange lo hi ordered = t.between lo hi := by
  have taken : (t.chars.take hi).take lo = t.chars.take lo := by rw [List.take_take, Nat.min_eq_left ordered]
  refine Boundary.between_eq _ ?_ ?_ (x := t.chars.take lo)
  · rw [(Boundary.cut_ofPosition t.chars hi).1, between, ← taken, List.take_append_drop]
  · exact byteOffset_eq t.chars lo

theorem findIn?_of_window (h : t.searchWindow start stop = some (lo, hi)) (sub : Text) :
    t.findIn? sub start stop = (firstIndex? sub.chars (t.between lo hi)).map (lo + ·) := by
  unfold findIn?
  split
  · next missing => cases h.symm.trans missing
  · next found =>
    cases h.symm.trans found
    rw [← charRange_eq t (le_of_searchWindow h), ← Boundary.find?_start, Option.map_map]
    rfl

theorem findIn?_of_no_window (h : t.searchWindow start stop = none) (sub : Text) :
    t.findIn? sub start stop = none := by
  unfold findIn?
  split
  · rfl
  · next found => cases h.symm.trans found

theorem rfind?_eq (t sub : Text) :
    t.rfind? sub = (firstIndex? sub.chars.reverse t.chars.reverse).map fun i => t.length - i - sub.length := by
  rw [rfind?, ← Boundary.find?_start, Option.map_map]
  simp only [List.length_reverse]
  rfl

theorem count_of_window (nonempty : sub.chars ≠ []) (h : t.searchWindow start stop = some (lo, hi)) :
    t.count sub start stop = countDisjoint sub.chars nonempty (t.between lo hi) := by
  unfold count
  split
  · next missing => cases h.symm.trans missing
  · next found =>
    cases h.symm.trans found
    rw [dif_neg nonempty, Boundary.count_eq, (Boundary.cut_start _).2, charRange_eq]

theorem count_of_window_of_empty (empty : sub.chars = []) (h : t.searchWindow start stop = some (lo, hi)) :
    t.count sub start stop = hi - lo + 1 := by
  unfold count
  split
  · next missing => cases h.symm.trans missing
  · next found =>
    cases h.symm.trans found
    rw [dif_pos empty]

theorem count_of_no_window (h : t.searchWindow start stop = none) (sub : Text) : t.count sub start stop = 0 := by
  unfold count
  split
  · rfl
  · next found => cases h.symm.trans found

end DynamicValues.Text
