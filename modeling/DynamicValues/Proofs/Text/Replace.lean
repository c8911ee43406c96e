import DynamicValues.Proofs.Text.Fields
import DynamicValues.Text.Replace

/-!
Replacing in place is joining the fields anew. The invariant of the passes is that what stands before the
cursor is final and what stands behind it is still the old text, so the fields of the latter tell what is to
come. The number of passes depends on the old text and on the limit alone.
-/

set_option autoImplicit false

namespace DynamicValues.Text

/-- As many as there are, but not more than the limit. -/
def capped (limit : Option Nat) (n : Nat) : Nat := limit.elim n (min · n)

section Capped

variable {limit : Option Nat} {passes : Nat}

theorem capped_of_reached (h : limit.all (passes < ·) = false) (n : Nat) :
    capped (limit.map (· - passes)) n = 0 := by
  cases limit with
  | none => cases h
  | some k =>
    simp only [Option.all_some, decide_eq_false_iff_not] at h
    simp only [capped, Option.map_some, Option.elim_some]
    omega

theorem capped_of_open (h : limit.all (passes < ·) = true) (n : Nat) :
    capped (limit.map (· - passes)) (n + 1) = capped (limit.map (· - (passes + 1))) n + 1 := by
  cases limit with
  | none => rfl
  | some k =>
    simp only [Option.all_some, decide_eq_true_iff] at h
    simp only [capped, Option.map_some, Option.elim_some]
    omega

theorem capped_zero (limit : Option Nat) : capped limit 0 = 0 := by
  cases limit <;> simp [capped]

theorem capped_le (limit : Option Nat) (n : Nat) : capped limit n ≤ n := by
  cases limit with
  | none => exact Nat.le_refl n
  | some m => exact Nat.min_le_right m n

end Capped

namespace Draft

/-- The draft with the cursor between what is final and what is left. -/
def between (done rest : List Char) : Draft := ⟨done ++ rest, ⟨byteSize done, Boundary.isSome_cutAt? rfl rfl⟩⟩

theorem cut_between (done rest : List Char) :
    (between done rest).cursor.before = done ∧ (between done rest).cursor.rest = rest :=
  Boundary.cut_eq _ rfl rfl

theorem eq_of_offset {d e : Draft} (chars : d.chars = e.chars) (offset : d.cursor.offset = e.cursor.offset) :
    d = e := by
  obtain ⟨s, b, hb⟩ := d
  obtain ⟨t, c, hc⟩ := e
  obtain rfl : s = t := chars
  obtain rfl : b = c := offset
  rfl

theorem start_eq (s : List Char) : (⟨s, .start s⟩ : Draft) = between [] s := eq_of_offset rfl rfl

section Pass

variable {old rest before after : List Char} (new done : List Char)

theorem pass_of_cut?_eq_none (h : cut? old rest = none) : (between done rest).pass old new = none := by
  have missing : (between done rest).cursor.find? old = none := Boundary.find?_eq_none (by rwa [(cut_between _ _).2])
  rw [pass, missing, Option.map_none]

/-- A pass makes the characters before the occurrence final, and the new text with them. -/
theorem pass_of_cut?_eq_some (h : cut? old rest = some (before, after)) :
    (between done rest).pass old new = some (between (done ++ before ++ new) after) := by
  have cut := cut_between done rest
  obtain ⟨place, behind, found, place_eq, behind_eq⟩ :=
    Boundary.find?_eq_some (b := (between done rest).cursor) (by rwa [cut.2])
  rw [cut.1] at place_eq
  rw [pass, found, Option.map_some]
  refine congrArg some (eq_of_offset ?_ ?_)
  · change place.before ++ new ++ behind.rest = done ++ before ++ new ++ after
    rw [place_eq, behind_eq]
  · change place.offset + byteSize new = byteSize (done ++ before ++ new)
    rw [place.offset_eq, place_eq, ← byteSize_append]

theorem pass_nil (rest : List Char) : (between done rest).pass [] new = some (between (done ++ new) rest) := by
  have found : cut? [] rest = some ([], rest) := by cases rest <;> rfl
  rw [pass_of_cut?_eq_some new done found, List.append_nil]

theorem skip_nil : (between done []).skip = none := by
  rw [skip, Boundary.next?_eq_none (cut_between done []).2, Option.map_none]

theorem skip_cons (c : Char) (rest : List Char) :
    (between done (c :: rest)).skip = some (between (done ++ [c]) rest) := by
  have cut := cut_between done (c :: rest)
  obtain ⟨behind, moved, behind_eq, -⟩ := Boundary.next?_eq_some cut.2
  rw [cut.1] at behind_eq
  rw [skip, moved, Option.map_some]
  refine congrArg some (eq_of_offset ?_ ?_)
  · exact (List.append_cons done c rest)
  · exact behind.offset_eq.trans (congrArg byteSize behind_eq)

end Pass

section Loop

variable {old new : List Char} {limit : Option Nat} {passes : Nat} {d e : Draft}

theorem replace_of_reached (h : limit.all (passes < ·) = false) :
    d.replace old new limit passes = (passes, d.chars) := by
  rw [replace, if_neg (by simp [h])]

theorem replace_of_missing (h : d.pass old new = none) :
    d.replace old new limit passes = (passes, d.chars) := by
  rw [replace]
  split
  · split
    · rfl
    · next found => cases h.symm.trans found
  · rfl

theorem replace_of_found (h : limit.all (passes < ·) = true) (found : d.pass old new = some e) :
    d.replace old new limit passes =
      if old ≠ [] then e.replace old new limit (passes + 1)
      else e.skip.elim (passes + 1, e.chars) fun f => f.replace old new limit (passes + 1) := by
  rw [replace, if_pos h]
  split
  · next missing => cases found.symm.trans missing
  · next found' =>
    cases found.symm.trans found'
    split
    · rfl
    · split <;> next skipped => simp only [skipped, Option.elim_none, Option.elim_some]

end Loop

/-- Induction on the fields that are left. -/
theorem replace_of_ne_nil {old : List Char} (nonempty : old ≠ []) (new : List Char) (limit : Option Nat)
    (passes : Nat) (done rest : List Char) {fs : List (List Char)} (hfs : fields old nonempty rest = fs) {c : Nat}
    (hc : capped (limit.map (· - passes)) (fs.length - 1) = c) :
    (between done rest).replace old new limit passes =
      (passes + c, done ++ new.intercalate (fs.take c ++ [old.intercalate (fs.drop c)])) := by
  subst hfs hc
  fun_induction fields old nonempty rest generalizing passes done with
  | case1 rest missing =>
    rw [replace_of_missing (pass_of_cut?_eq_none new done missing)]
    simp [capped_zero, between]
  | case2 rest before after found _ ih =>
    cases more : limit.all (passes < ·) with
    | false =>
      have whole := intercalate_fields nonempty rest
      rw [fields_of_cut?_eq_some nonempty found] at whole
      rw [replace_of_reached more, capped_of_reached more]
      simp [whole, between]
    | true =>
      obtain ⟨f, fs, split⟩ := List.exists_cons_of_ne_nil (fields_ne_nil nonempty after)
      rw [replace_of_found more (pass_of_cut?_eq_some new done found), if_pos nonempty, ih]
      simp only [split, List.length_cons, Nat.add_sub_cancel, capped_of_open more, List.take_succ_cons,
        List.drop_succ_cons, List.cons_append]
      rw [List.intercalate_cons_of_ne_nil (by simp)]
      simp [Nat.add_assoc, Nat.add_comm 1]

end Draft

/-- The text with `new` put in before each of its first `n` boundaries. A boundary stands before each
character and at the end. -/
def insertAtBoundaries (new : List Char) (n : Nat) (s : List Char) : List Char :=
  (List.range (s.length + 1)).flatMap fun i => (if i < n then new else []) ++ s[i]?.toList

section Boundaries

variable (new : List Char) (n : Nat)

theorem insertAtBoundaries_nil : insertAtBoundaries new n [] = if 0 < n then new else [] := by
  simp [insertAtBoundaries, List.range_succ]

theorem insertAtBoundaries_cons (c : Char) (s : List Char) :
    insertAtBoundaries new n (c :: s) = (if 0 < n then new else []) ++ c :: insertAtBoundaries new (n - 1) s := by
  have shifted (i : Nat) : i + 1 < n ↔ i < n - 1 := by omega
  simp [insertAtBoundaries, List.range_succ_eq_map (n := s.length + 1), List.flatMap_map, shifted]

theorem insertAtBoundaries_zero (s : List Char) : insertAtBoundaries new 0 s = s := by
  induction s with
  | nil => rfl
  | cons c s ih => simp [insertAtBoundaries_cons, ih]

end Boundaries

/-- Induction on the characters that are left. -/
theorem Draft.replace_nil (new : List Char) (limit : Option Nat) (passes : Nat) (done rest : List Char) {c : Nat}
    (hc : capped (limit.map (· - passes)) (rest.length + 1) = c) :
    (between done rest).replace [] new limit passes = (passes + c, done ++ insertAtBoundaries new c rest) := by
  subst hc
  induction rest generalizing passes done with
  | nil =>
    cases more : limit.all (passes < ·) with
    | false => simp [replace_of_reached more, capped_of_reached more, insertAtBoundaries_zero, between]
    | true =>
      rw [replace_of_found more (pass_nil new done []), if_neg (by simp), skip_nil, capped_of_open more]
      simp [capped_zero, insertAtBoundaries_nil, between]
  | cons x rest ih =>
    cases more : limit.all (passes < ·) with
    | false => simp [replace_of_reached more, capped_of_reached more, insertAtBoundaries_zero, between]
    | true =>
      rw [replace_of_found more (pass_nil new done _), if_neg (by simp), skip_cons, Option.elim_some, ih,
        List.length_cons, capped_of_open more, insertAtBoundaries_cons]
      simp [Nat.add_assoc, Nat.add_comm 1]

theorem replacement_of_ne_nil {old : Text} (nonempty : old.chars ≠ []) (t new : Text) (limit : Option Nat)
    {fs : List Text} (hfs : t.split (some old) = .ok fs) {c : Nat} (hc : capped limit (fs.length - 1) = c) :
    t.replacement old new limit = (c, new.join (fs.take c ++ [old.join (fs.drop c)])) := by
  rw [split_eq nonempty] at hfs
  cases hfs
  rw [List.length_map] at hc
  have passes := Draft.replace_of_ne_nil nonempty new.chars limit 0 [] t.chars rfl (c := c) (by simpa using hc)
  rw [← Draft.start_eq] at passes
  simp [replacement, passes, join, Function.comp_def]

theorem replacement_of_nil {old : Text} (empty : old.chars = []) (t new : Text) (limit : Option Nat) {c : Nat}
    (hc : capped limit (t.length + 1) = c) :
    t.replacement old new limit = (c, ⟨insertAtBoundaries new.chars c t.chars⟩) := by
  have passes := Draft.replace_nil new.chars limit 0 [] t.chars (c := c) (by simpa [length] using hc)
  rw [← Draft.start_eq] at passes
  simp [replacement, empty, passes]

theorem join_singleton (sep t : Text) : sep.join [t] = t := by simp [join]

/-- The last field has no separator behind it. -/
theorem take_append_join_drop (sep : Text) {fs : List Text} (nonempty : fs ≠ []) :
    fs.take (fs.length - 1) ++ [sep.join (fs.drop (fs.length - 1))] = fs := by
  obtain ⟨init, last, rfl⟩ := (List.eq_nil_or_concat fs).resolve_left nonempty
  simp [join_singleton]

/-- Replacing puts `new` in the place of the first occurrences of `old`, which separate the fields: as many as
there are or as the limit allows, and without a limit all of them. An empty `old` occurs at each boundary. No
text takes more passes than it has boundaries, whatever is put in. -/
theorem replace_from_the_left (t old new : Text) (limit : Option Nat) :
    (old.isEmpty = false → ∃ fs, t.split (some old) = .ok fs ∧
      (∀ c, c = capped limit (fs.length - 1) →
        t.replace old new limit = new.join (fs.take c ++ [old.join (fs.drop c)]) ∧
        (t.replacement old new limit).1 = c) ∧
      t.replace old new none = new.join fs) ∧
    (old.isEmpty = true → ∀ c, c = capped limit (t.length + 1) →
      t.replace old new limit = ⟨insertAtBoundaries new.chars c t.chars⟩ ∧
      (t.replacement old new limit).1 = c) ∧
    (t.replacement old new limit).1 ≤ t.length + 1 := by
  by_cases empty : old.chars = []
  · have replaced := replacement_of_nil empty t new limit rfl
    have isEmpty : old.isEmpty = true := by simp [isEmpty, empty]
    refine ⟨by simp [isEmpty], ?_, ?_⟩
    · rintro _ c rfl
      rw [replace, replaced]
      exact ⟨rfl, rfl⟩
    · rw [replaced]
      exact capped_le limit _
  · have split := split_eq empty t
    have replaced (limit : Option Nat) := replacement_of_ne_nil empty t new limit split rfl
    have isEmpty : old.isEmpty = false := by simp [isEmpty, empty]
    refine ⟨fun _ => ⟨_, split, ?_, ?_⟩, by simp [isEmpty], ?_⟩
    · rintro c rfl
      rw [replace, replaced]
      exact ⟨rfl, rfl⟩
    · rw [replace, replaced, capped, Option.elim_none]
      dsimp only
      rw [take_append_join_drop old (by simp [fields_ne_nil])]
    · have few := length_fields_le empty t.chars
      have capped := capped_le limit (((fields old.chars empty t.chars).map Text.mk).length - 1)
      rw [replaced]
      rw [List.length_map] at capped ⊢
      exact Nat.le_trans capped (by rw [length]; omega)

namespace Echo

/-- A character of one byte between two of two bytes. -/
def text : Text := ⟨['é', 'b', 'é']⟩

def old : Text := ⟨['é']⟩

/-- Holds the text that it replaces. -/
def new : Text := ⟨['é', 'é']⟩

theorem split_text : text.split (some old) = .ok [⟨[]⟩, ⟨['b']⟩, ⟨[]⟩] := by
  have nonempty : old.chars ≠ [] := by decide
  have first : cut? old.chars text.chars = some ([], ['b', 'é']) := rfl
  have second : cut? old.chars ['b', 'é'] = some (['b'], []) := rfl
  have none : cut? old.chars [] = none := rfl
  rw [split_eq nonempty, fields_of_cut?_eq_some nonempty first, fields_of_cut?_eq_some nonempty second,
    fields_of_cut?_eq_none nonempty none]
  rfl

end Echo

/-- What is put in is not searched again. -/
theorem replace_echo :
    Echo.text.replace Echo.old Echo.new (some 1) = ⟨['é', 'é', 'b', 'é']⟩ ∧
      Echo.text.replace Echo.old Echo.new none = ⟨['é', 'é', 'b', 'é', 'é']⟩ ∧
      (Echo.text.replacement Echo.old Echo.new (some 1)).1 = 1 ∧
      Echo.text.replace empty Echo.old (some 2) = ⟨['é', 'é', 'é', 'b', 'é']⟩ := by
  obtain ⟨nonempty, -, -⟩ := replace_from_the_left Echo.text Echo.old Echo.new (some 1)
  obtain ⟨-, boundaries, -⟩ := replace_from_the_left Echo.text empty Echo.old (some 2)
  obtain ⟨fs, split, first, all⟩ := nonempty rfl
  cases Echo.split_text.symm.trans split
  obtain ⟨replaced, passes⟩ := first 1 rfl
  exact ⟨replaced, all, passes, (boundaries rfl 2 rfl).1⟩

end DynamicValues.Text
