import DynamicValues.Slice
import DynamicValues.Text.Boundary

/-!
Searching a text for another one. Every search goes through `cut?`, which divides a text at the first
occurrence. Occurrences are places in bytes; answers count the characters before them.
-/

set_option autoImplicit false

namespace DynamicValues.Text

/-- What stands before and after the first occurrence of `sub`. -/
def cut? (sub : List Char) : List Char → Option (List Char × List Char)
  | [] => if sub.isEmpty then some ([], []) else none
  | c :: cs =>
    if sub.isPrefixOf (c :: cs) then some ([], (c :: cs).drop sub.length)
    else (cut? sub cs).map fun (before, after) => (c :: before, after)

theorem eq_of_cut? {sub s before after : List Char} (h : cut? sub s = some (before, after)) :
    s = before ++ sub ++ after := by
  induction s generalizing before with
  | nil =>
    simp only [cut?] at h
    split at h
    · cases h
      simp_all
    · cases h
  | cons c cs ih =>
    simp only [cut?] at h
    split at h
    · next hpre =>
      obtain ⟨rest, hrest⟩ := List.isPrefixOf_iff_prefix.1 hpre
      cases h
      simp [← hrest]
    · obtain ⟨⟨b, a⟩, hba, hmap⟩ := Option.map_eq_some_iff.1 h
      cases hmap
      simp [ih hba]

theorem length_lt_of_cut? {sub s before after : List Char} (h : cut? sub s = some (before, after))
    (nonempty : sub ≠ []) : after.length < s.length := by
  have hpos := List.length_pos_iff.2 nonempty
  have hlen := congrArg List.length (eq_of_cut? h)
  simp only [List.length_append] at hlen
  omega

namespace Boundary

variable {s sub gap after : List Char}

theorem eq_of_cut?_rest {b : Boundary s} (h : cut? sub b.rest = some (gap, after)) :
    s = b.before ++ gap ++ sub ++ after := by
  have split := b.eq_append
  rw [eq_of_cut? h] at split
  simpa only [List.append_assoc] using split

/-- Where the first occurrence of `sub` behind the boundary begins, and where it ends. -/
def find? (sub : List Char) (b : Boundary s) : Option (Boundary s × Boundary s) :=
  match found : cut? sub b.rest with
  | none => none
  | some (gap, after) =>
    let place := b.offset + byteSize gap
    have begins : place = byteSize (b.before ++ gap) := by rw [byteSize_append, ← b.offset_eq]
    have ends : place + byteSize sub = byteSize (b.before ++ gap ++ sub) := by rw [byteSize_append, begins]
    have split := eq_of_cut?_rest found
    some (⟨place, isSome_cutAt? (split.trans (List.append_assoc _ sub after)) begins⟩,
      ⟨place + byteSize sub, isSome_cutAt? split ends⟩)

theorem find?_eq_none {b : Boundary s} (h : cut? sub b.rest = none) : b.find? sub = none := by
  unfold find?
  split
  · rfl
  · next found => cases h.symm.trans found

theorem find?_eq_some {b : Boundary s} (h : cut? sub b.rest = some (gap, after)) :
    ∃ place behind, b.find? sub = some (place, behind) ∧ place.before = b.before ++ gap ∧ behind.rest = after := by
  unfold find?
  split
  · next missing => cases h.symm.trans missing
  · next found =>
    cases h.symm.trans found
    have split := eq_of_cut?_rest h
    refine ⟨_, _, rfl, (cut_eq _ (split.trans (List.append_assoc _ sub after)) ?_).1, (cut_eq _ split ?_).2⟩
    · rw [byteSize_append, ← b.offset_eq]
    · rw [byteSize_append, byteSize_append, ← b.offset_eq]

theorem length_rest_of_find? {b place behind : Boundary s} (h : b.find? sub = some (place, behind))
    (nonempty : sub ≠ []) : behind.rest.length < b.rest.length := by
  cases cut : cut? sub b.rest with
  | none => cases (find?_eq_none cut).symm.trans h
  | some parts =>
    obtain ⟨_, _, found, -, after⟩ := find?_eq_some cut
    cases found.symm.trans h
    rw [after]
    exact length_lt_of_cut? cut nonempty

/-- Occurrences of `sub` behind the boundary, counted from the left without overlap. -/
def count (sub : List Char) (nonempty : sub ≠ []) (cursor : Boundary s) : Nat :=
  match found : cursor.find? sub with
  | none => 0
  | some (_, behind) =>
    have := length_rest_of_find? found nonempty
    count sub nonempty behind + 1
termination_by cursor.rest.length

end Boundary

/-- The window to search, if there is one: a start past the end leaves none, and neither does a start
past the stop. -/
def searchWindow (t : Text) (start stop : Option Int64) : Option (Nat × Nat) :=
  if start.any fun i => (t.length : Int) < i.toInt then none
  else
    let (lo, hi) := Slice.window start stop t.length
    if lo ≤ hi then some (lo, hi) else none

theorem le_of_searchWindow {t : Text} {start stop : Option Int64} {lo hi : Nat}
    (h : t.searchWindow start stop = some (lo, hi)) : lo ≤ hi := by
  unfold searchWindow at h
  split at h
  · cases h
  · dsimp only at h
    split at h
    · next ordered =>
      cases h
      exact ordered
    · cases h

def contains (t sub : Text) : Bool := (cut? sub.chars t.chars).isSome

/-- The first position in the window at which `sub` occurs. -/
def findIn? (t sub : Text) (start stop : Option Int64) : Option Nat :=
  match window : t.searchWindow start stop with
  | none => none
  | some (lo, hi) =>
    let haystack := t.charRange lo hi (le_of_searchWindow window)
    ((Boundary.start haystack).find? sub.chars).map fun (place, _) => lo + place.before.length

def find? (t sub : Text) : Option Nat := t.findIn? sub none none

/-- The last position at which `sub` occurs: the first one, seen from the end. -/
def rfind? (t sub : Text) : Option Nat :=
  let reversed := t.chars.reverse
  let needle := sub.chars.reverse
  ((Boundary.start reversed).find? needle).map fun (place, _) => t.length - place.before.length - needle.length

/-- Disjoint occurrences in the window; the empty text occurs once at each boundary. -/
def count (t sub : Text) (start stop : Option Int64) : Nat :=
  match window : t.searchWindow start stop with
  | none => 0
  | some (lo, hi) =>
    if h : sub.chars = [] then hi - lo + 1
    else (Boundary.start (t.charRange lo hi (le_of_searchWindow window))).count sub.chars h

end DynamicValues.Text
