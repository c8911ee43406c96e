import DynamicValues.Aggregate
import DynamicValues.Proofs.Drain
import DynamicValues.Proofs.Text.Count
import DynamicValues.Proofs.Text.Fields

/-!
Splitting and joining undo each other. The fields of a text are cut at the places at which the separator is
counted, so there is one more of them. Fields that were joined come back if no occurrence of the separator can
reach from one into the next.
-/

set_option autoImplicit false

namespace DynamicValues

/-- Joining a value that is walked by texts. -/
theorem Run.exec_join (sep : Text) {v : Value} {i : Nat} {s t : Store} (found : exec (cursorOf v) s = (.ok i, t))
    {parts : List Text} (rest : (t.cursor i).rest = parts.map .str) :
    exec (Run.join sep v) s = (.ok (sep.join parts), t.skip i parts.length) := by
  have pushed : exec (foldCursor i [] pushText) t = (.ok parts.reverse, t.skip i parts.length) := by
    rw [exec_foldCursor_of_rest i Value.str (fun texts text => text :: texts) (fun _ _ => rfl) rest,
      List.foldl_flip_cons_eq_append, List.append_nil, List.map_id']
  rw [Run.join, exec_bind, found]
  dsimp only
  rw [exec_bind, pushed]
  dsimp only
  rw [List.reverse_reverse]
  rfl

theorem Run.exec_join_list (sep : Text) (parts : List Text) (s : Store) :
    (exec (Run.join sep (.list (parts.map .str))) s).1 = .ok (sep.join parts) := by
  have rest : ((s.addCursor (parts.map .str)).2.cursor (s.addCursor (parts.map .str)).1).rest = parts.map .str := by
    rw [Store.cursor_addCursor, Cursor.rest_start]
  rw [Run.exec_join sep rfl rest]

namespace Text

section Fields

variable {sep : List Char} (nonempty : sep ≠ []) {s f : List Char}

include nonempty in
/-- What stands before the first occurrence holds none, since that would be an earlier one. -/
theorem places_before_of_cut? {before after : List Char} (h : cut? sep s = some (before, after)) :
    places sep before = ∅ := by
  have front : s.take before.length = before := by rw [eq_of_cut? h, List.append_assoc, List.take_left]
  have inside : before.length ≤ s.length := by
    rw [eq_of_cut? h, List.append_assoc]
    exact (List.prefix_append _ _).length_le
  have pos := List.length_pos_iff.2 nonempty
  rw [Set.eq_empty_iff_forall_notMem]
  intro i here
  rw [← front, mem_places_take inside] at here
  have least := (isLeast_of_cut? h).2 here.2
  omega

theorem places_field (h : f ∈ fields sep nonempty s) : places sep f = ∅ := by
  fun_induction fields sep nonempty s with
  | case1 s missing =>
    rw [List.mem_singleton.1 h]
    exact places_eq_empty_of_cut? missing
  | case2 s before after found _ ih =>
    rcases List.mem_cons.1 h with rfl | later
    · exact places_before_of_cut? nonempty found
    · exact ih later

theorem length_fields (s : List Char) :
    (fields sep nonempty s).length = countDisjoint sep nonempty s + 1 := by
  fun_induction fields sep nonempty s with
  | case1 s missing => rw [countDisjoint_of_cut?_eq_none nonempty missing, List.length_singleton]
  | case2 s before after found _ ih =>
    rw [countDisjoint_of_cut?_eq_some nonempty found, List.length_cons, ih]

end Fields

/-- A single character cannot reach from a field into the separator behind it. -/
theorem cut?_append_cons {c : Char} {f : List Char} (free : cut? [c] f = none) (rest : List Char) :
    cut? [c] (f ++ c :: rest) = some (f, rest) := by
  induction f with
  | nil => simp [cut?]
  | cons x f ih =>
    simp only [cut?] at free
    split at free
    · cases free
    · next other =>
      have later := ih (Option.map_eq_none_iff.1 free)
      rw [List.cons_append, cut?, if_neg (by simpa using other), later]
      rfl

theorem fields_intercalate {c : Char} {fs : List (List Char)} (present : fs ≠ [])
    (free : ∀ f ∈ fs, cut? [c] f = none) :
    fields [c] (List.cons_ne_nil c []) ([c].intercalate fs) = fs := by
  induction fs with
  | nil => exact absurd rfl present
  | cons f fs ih =>
    have first := free f List.mem_cons_self
    by_cases last : fs = []
    · rw [last, List.intercalate_singleton, fields_of_cut?_eq_none _ first]
    · have later := ih last fun g hg => free g (List.mem_cons_of_mem f hg)
      rw [List.intercalate_cons_of_ne_nil last, List.append_assoc, List.singleton_append,
        fields_of_cut?_eq_some _ (cut?_append_cons first _), later]

theorem split_join_ofChar {c : Char} {fs : List Text} (present : fs ≠ [])
    (free : ∀ f ∈ fs, f.contains (.ofChar c) = false) :
    (join (.ofChar c) fs).split (some (.ofChar c)) = .ok fs := by
  have nonempty : (ofChar c).chars ≠ [] := List.cons_ne_nil c []
  have missing : ∀ f ∈ fs.map chars, cut? [c] f = none := by
    rw [List.forall_mem_map]
    intro f hf
    exact cut?_eq_none_iff.2 (contains_eq_false_iff.1 (free f hf))
  have back : fields (ofChar c).chars nonempty (join (.ofChar c) fs).chars = fs.map chars :=
    fields_intercalate (by simpa using present) missing
  rw [split_eq nonempty, back, List.map_map]
  exact congrArg Except.ok (List.map_id fs)

theorem join_fields {sep : Text} (nonempty : sep.chars ≠ []) (t : Text) :
    sep.join ((fields sep.chars nonempty t.chars).map Text.mk) = t := by
  rw [join, List.map_map]
  exact congrArg Text.mk ((congrArg _ (List.map_id _)).trans (intercalate_fields nonempty t.chars))

/-- Joining the fields of a text gives the text; none of them holds the separator, and there is one more than
the separator is counted. Splitting what was joined by a single character gives the fields, if none of them
holds it. -/
theorem split_join_inverse :
    (∀ t sep : Text, sep.isEmpty = false → ∃ fs, t.split (some sep) = .ok fs ∧
      (∀ s : Store, (exec (Run.join sep (.list (fs.map .str))) s).1 = .ok t) ∧
      (∀ f ∈ fs, f.contains sep = false) ∧ fs.length = t.count sep none none + 1) ∧
    ∀ (c : Char) (fs : List Text), fs ≠ [] → (∀ f ∈ fs, f.contains (.ofChar c) = false) →
      ∃ t, (∀ s : Store, (exec (Run.join (.ofChar c) (.list (fs.map .str))) s).1 = .ok t) ∧
        t.split (some (.ofChar c)) = .ok fs := by
  constructor
  · intro t sep present
    have nonempty : sep.chars ≠ [] := by simpa [isEmpty] using present
    refine ⟨_, split_eq nonempty t, fun s => ?_, ?_, ?_⟩
    · rw [Run.exec_join_list, join_fields]
    · rw [List.forall_mem_map]
      intro f hf
      exact contains_eq_false_iff.2 (places_field nonempty hf)
    · rw [List.length_map, length_fields, count_none nonempty]
  · intro c fs present free
    exact ⟨join (.ofChar c) fs, Run.exec_join_list _ fs, split_join_ofChar present free⟩

namespace Refrain

theorem split_text : text.split (some sub) = .ok [⟨[]⟩, ⟨['本', 'é']⟩] := by
  have nonempty : sub.chars ≠ [] := by decide
  have first : cut? sub.chars text.chars = some ([], ['本', 'é']) := rfl
  have none : cut? sub.chars ['本', 'é'] = none := rfl
  rw [split_eq nonempty, fields_of_cut?_eq_some nonempty first, fields_of_cut?_eq_none nonempty none]
  rfl

end Refrain

/-- An occurrence that overlaps one at which the text was cut cuts nothing; fields may be empty. -/
theorem refrain_split_and_joined :
    (exec (Run.join Refrain.sub (.list [.str ⟨[]⟩, .str ⟨['本', 'é']⟩])) .empty).1 = .ok Refrain.text ∧
      Refrain.text.count Refrain.sub none none = 1 ∧
      ∃ t, (exec (Run.join (.ofChar ',') (.list [.str ⟨[]⟩, .str ⟨['本', 'é']⟩])) .empty).1 = .ok t ∧
        t.split (some (.ofChar ',')) = .ok [⟨[]⟩, ⟨['本', 'é']⟩] := by
  obtain ⟨fs, split, joined, -, count⟩ := split_join_inverse.1 Refrain.text Refrain.sub rfl
  cases Refrain.split_text.symm.trans split
  obtain ⟨t, joined', back⟩ := split_join_inverse.2 ',' [⟨[]⟩, ⟨['本', 'é']⟩] (List.cons_ne_nil _ _)
    (List.forall_mem_cons.2 ⟨rfl, List.forall_mem_singleton.2 rfl⟩)
  exact ⟨joined .empty, (Nat.succ.inj count).symm, t, joined' .empty, back⟩

end Text
end DynamicValues
