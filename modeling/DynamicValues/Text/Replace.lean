import DynamicValues.Text.Search

/-!
Replacing the occurrences of a text in another one, in place. The text is searched while it changes: each
pass puts the new text in at the first occurrence behind a cursor and moves the cursor behind what it has put
in. What is left to search gets shorter with every pass, whatever is put in.
-/

set_option autoImplicit false

namespace DynamicValues.Text

/-- A text under change, and the place from which it is searched. -/
structure Draft where
  chars : List Char
  cursor : Boundary chars

namespace Draft

/-- What is left to search. -/
def rest (d : Draft) : List Char := d.cursor.rest

/-- The draft with `new` for what stands between two boundaries, and the cursor behind it. -/
def put {s : List Char} (new : List Char) (place behind : Boundary s) : Draft :=
  have size : place.offset + byteSize new = byteSize (place.before ++ new) := by
    rw [byteSize_append, place.offset_eq]
  ⟨place.before ++ new ++ behind.rest, ⟨place.offset + byteSize new, Boundary.isSome_cutAt? rfl size⟩⟩

/-- The draft with `new` for the first occurrence of `old` that is left. -/
def pass (old new : List Char) (d : Draft) : Option Draft :=
  (d.cursor.find? old).map fun (place, behind) => put new place behind

/-- The draft with the cursor one character further, if there is one. -/
def skip (d : Draft) : Option Draft := d.cursor.next?.map (⟨d.chars, ·⟩)

theorem rest_put {s : List Char} (new : List Char) (place behind : Boundary s) :
    (put new place behind).rest = behind.rest := by
  refine (Boundary.cut_eq _ rfl ?_).2
  rw [byteSize_append, ← place.offset_eq]
  rfl

theorem length_rest_of_pass {old new : List Char} {d e : Draft} (h : d.pass old new = some e) :
    e.rest.length + old.length ≤ d.rest.length := by
  obtain ⟨⟨place, behind⟩, found, rfl⟩ := Option.map_eq_some_iff.1 h
  cases cut : cut? old d.cursor.rest with
  | none => cases (Boundary.find?_eq_none cut).symm.trans found
  | some parts =>
    obtain ⟨_, _, found', -, after⟩ := Boundary.find?_eq_some cut
    cases found'.symm.trans found
    have split := congrArg List.length (eq_of_cut? cut)
    rw [rest_put, after, rest, split]
    simp only [List.length_append]
    omega

theorem length_rest_of_skip {d e : Draft} (h : d.skip = some e) : e.rest.length < d.rest.length := by
  obtain ⟨b, moved, rfl⟩ := Option.map_eq_some_iff.1 h
  cases left : d.cursor.rest with
  | nil => cases (Boundary.next?_eq_none left).symm.trans moved
  | cons c after =>
    obtain ⟨_, moved', -, after_eq⟩ := Boundary.next?_eq_some left
    cases moved'.symm.trans moved
    rw [rest, rest, left, after_eq]
    exact Nat.lt_succ_self _

/-- The number of passes and the text after them. An empty `old` is found right behind the cursor, which
therefore skips a character after each pass. -/
def replace (old new : List Char) (limit : Option Nat) (passes : Nat) (d : Draft) : Nat × List Char :=
  if limit.all (passes < ·) then
    match found : d.pass old new with
    | none => (passes, d.chars)
    | some e =>
      if nonempty : old ≠ [] then
        have : e.rest.length < d.rest.length := by
          have shorter := length_rest_of_pass found
          have := List.length_pos_iff.2 nonempty
          omega
        replace old new limit (passes + 1) e
      else
        match skipped : e.skip with
        | none => (passes + 1, e.chars)
        | some f =>
          have : f.rest.length < d.rest.length := by
            have shorter := length_rest_of_pass found
            have := length_rest_of_skip skipped
            omega
          replace old new limit (passes + 1) f
  else (passes, d.chars)
termination_by d.rest.length

end Draft

/-- The text with `new` for the occurrences of `old` from the left, at most `limit` of them, and how many
these were. -/
def replacement (t old new : Text) (limit : Option Nat) : Nat × Text :=
  let (passes, chars) := Draft.replace old.chars new.chars limit 0 ⟨t.chars, .start t.chars⟩
  (passes, ⟨chars⟩)

def replace (t old new : Text) (limit : Option Nat) : Text := (t.replacement old new limit).2

end DynamicValues.Text
