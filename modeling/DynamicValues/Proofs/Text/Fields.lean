import DynamicValues.Subscript

/-!
The fields of a text between the occurrences of a separator. Joined by it, they give the text back.
-/

set_option autoImplicit false

namespace DynamicValues.Text

variable {sep : List Char} (nonempty : sep ≠ []) {s before after : List Char}

theorem fields_of_cut?_eq_none (h : cut? sep s = none) : fields sep nonempty s = [s] := by
  rw [fields]
  split
  · rfl
  · next found => cases h.symm.trans found

theorem fields_of_cut?_eq_some (h : cut? sep s = some (before, after)) :
    fields sep nonempty s = before :: fields sep nonempty after := by
  rw [fields]
  split
  · next missing => cases h.symm.trans missing
  · next found =>
    cases h.symm.trans found
    rfl

theorem fields_ne_nil (s : List Char) : fields sep nonempty s ≠ [] := by
  rw [fields]
  split <;> exact List.cons_ne_nil _ _

theorem intercalate_fields (s : List Char) : sep.intercalate (fields sep nonempty s) = s := by
  fun_induction fields sep nonempty s with
  | case1 s missing => exact List.intercalate_singleton
  | case2 s before after found _ ih =>
    rw [List.intercalate_cons_of_ne_nil (fields_ne_nil nonempty after), ih]
    exact (eq_of_cut? found).symm

/-- Between two fields stands at least one character. -/
theorem length_fields_le (s : List Char) : (fields sep nonempty s).length ≤ s.length + 1 := by
  fun_induction fields sep nonempty s with
  | case1 s missing => exact Nat.le_add_left 1 _
  | case2 s before after found shorter ih =>
    rw [List.length_cons]
    omega

theorem split_eq {sep : Text} (nonempty : sep.chars ≠ []) (t : Text) :
    t.split (some sep) = .ok ((fields sep.chars nonempty t.chars).map Text.mk) := by
  simp [split, split?, nonempty]

end DynamicValues.Text
