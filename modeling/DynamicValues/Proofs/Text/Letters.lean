import DynamicValues.Proofs.ListLaws
import DynamicValues.Proofs.Text.Split

/-!
A text as the list of its one-character texts. Positions are chosen by an index or a slice and the length alone, so
choosing items and then mapping them is the same as mapping them first. Joined without a separator, the one-character
texts give the text back.
-/

set_option autoImplicit false

namespace DynamicValues

namespace Sequence

variable {α β : Type}

theorem pick_map (f : α → β) (xs : List α) (positions : List Nat) :
    pick (xs.map f) positions = (pick xs positions).map f := by
  rw [pick_eq_filterMap, pick_eq_filterMap, List.map_filterMap]
  simp only [List.getElem?_map]

theorem slice_map (f : α → β) (xs : List α) (s : Slice) : slice (xs.map f) s = (slice xs s).map (List.map f) := by
  rw [slice, slice, List.length_map]
  cases s.resolve xs.length with
  | error e => rfl
  | ok r => exact congrArg Except.ok (pick_map f xs r.positions)

/-- A mapped list has the mapped item at an index, or both lists have none there. -/
theorem get_map (f : α → β) (xs : List α) (i : Int64) (kind kind' : Kind) :
    (∃ x, get kind xs i = .ok x ∧ get kind' (xs.map f) i = .ok (f x)) ∨
      get kind xs i = .error (.indexOutOfRange kind) ∧ get kind' (xs.map f) i = .error (.indexOutOfRange kind') := by
  rcases exists_of_position? xs i with missing | ⟨before, x, after, rfl, named⟩
  · have missing' : position? i (xs.map f).length = none := by rw [List.length_map, missing]
    exact .inr ⟨get_of_position?_eq_none missing kind, get_of_position?_eq_none missing' kind'⟩
  · have parts : (before ++ x :: after).map f = before.map f ++ f x :: after.map f := by simp
    have named' : position? i (before.map f ++ f x :: after.map f).length = some (before.map f).length := by
      rw [← parts, List.length_map, List.length_map, named]
    rw [parts]
    exact .inl ⟨x, get_of_position? named kind, get_of_position? named' kind'⟩

end Sequence

/-- Only a step of zero cannot be resolved. -/
theorem Slice.resolve_cases (s : Slice) (len : Nat) :
    s.step ≠ some 0 ∧ (∃ r, s.resolve len = .ok r) ∨ s.step = some 0 ∧ s.resolve len = .error .zeroStep := by
  by_cases zero : s.step = some 0
  · exact .inr ⟨zero, by simp [resolve, indices?, zero]⟩
  · have moves := getD_step_ne_zero zero
    refine .inl ⟨zero, ?_⟩
    by_cases forward : 0 < (s.step.getD 1).toInt <;> simp [resolve, indices?, moves, forward]

namespace Text

theorem intercalate_singletons (cs : List Char) : [].intercalate (cs.map fun c => [c]) = cs := by
  induction cs with
  | nil => rfl
  | cons c cs ih =>
    cases cs with
    | nil => rfl
    | cons d ds =>
      have more : (d :: ds).map (fun c => [c]) ≠ [] := List.cons_ne_nil _ _
      rw [List.map_cons, List.intercalate_cons_of_ne_nil more, ih, List.append_nil, List.singleton_append]

theorem join_letters (t : Text) : empty.join t.letters = t := by
  rw [join, letters, List.map_map]
  exact congrArg Text.mk (intercalate_singletons t.chars)

theorem get_eq (t : Text) (i : Int64) : t.get i = do return ofChar (← Sequence.get .str t.chars i) := by
  rw [Text.get, Sequence.get, length]
  cases (Sequence.position? i t.chars.length).bind (t.chars[·]?) <;> rfl

/-- The characters of a text as values. -/
theorem items?_str (t : Text) (s : Store) : (Value.str t).items? s = some (t.chars.map fun c => .str (ofChar c)) := by
  rw [Value.items?, letters, List.map_map]
  rfl

/-- A text and the list of its one-character texts. They have the same length, and at each index the same text or
no item. A slice of the text joins the slice of the list, and both refuse a step of zero alike. A walk of the text
joins to the text. -/
theorem behaves_as_list (t : Text) (s : Store) :
    ∃ (xs : List Value) (u : Store), exec (Run.list (.str t)) s = (.ok (.list xs), u) ∧
      xs = t.chars.map (fun c => .str (ofChar c)) ∧
      (∃ n, (Value.str t).length = .ok n ∧ (Value.list xs).length = .ok n) ∧
      (∀ i : Int64, (∃ c, t.get i = .ok c ∧ Sequence.get .list xs i = .ok (.str c)) ∨
        ∃ e e', t.get i = .error e ∧ Sequence.get .list xs i = .error e' ∧
          e.category = .indexError ∧ e'.category = .indexError) ∧
      (∀ slice : Slice,
        slice.step ≠ some 0 ∧ (∃ sub ys, t.slice slice = .ok sub ∧ Sequence.slice xs slice = .ok ys ∧
          ∀ v, (exec (Run.join empty (.list ys)) v).1 = .ok sub) ∨
        slice.step = some 0 ∧ ∃ e, t.slice slice = .error e ∧ Sequence.slice xs slice = .error e ∧
          e.category = .valueError) ∧
      ∃ (walk : Value) (v : Store), exec (Run.iter (.str t)) s = (.ok walk, v) ∧
        (exec (Run.join empty walk) v).1 = .ok t := by
  obtain ⟨i, u, enters⟩ := Value.exists_enters (items?_str t s)
  refine ⟨_, _, Run.exec_list enters.exec_itemsOf, rfl, ⟨t.length, rfl, ?_⟩, ?_, ?_, ?_⟩
  · exact congrArg Except.ok (List.length_map _)
  · intro j
    rw [get_eq]
    have mapped := Sequence.get_map (fun c => Value.str (ofChar c)) t.chars j .str .list
    rcases mapped with ⟨c, got, got'⟩ | ⟨missing, missing'⟩
    · exact .inl ⟨ofChar c, by rw [got]; rfl, got'⟩
    · exact .inr ⟨_, _, by rw [missing]; rfl, missing', rfl, rfl⟩
  · intro slice
    rw [slice_eq, Sequence.slice_map, Sequence.slice]
    rcases slice.resolve_cases t.chars.length with ⟨moves, r, resolved⟩ | ⟨zero, refused⟩
    · refine .inl ⟨moves, _, _, by rw [resolved]; rfl, by rw [resolved]; rfl, ?_⟩
      intro v
      have joined := Run.exec_join_list empty (letters ⟨Sequence.pick t.chars r.positions⟩) v
      rw [join_letters, letters, List.map_map] at joined
      exact joined
    · exact .inr ⟨zero, .zeroStep, by rw [refused]; rfl, by rw [refused]; rfl, rfl⟩
  · have rest : (u.cursor i).rest = t.letters.map .str := by
      rw [enters.rest, letters, List.map_map]
      rfl
    refine ⟨.iter i, u, enters.exec_iter, ?_⟩
    rw [Run.exec_join empty (v := .iter i) rfl rest, join_letters]

end Text
end DynamicValues
