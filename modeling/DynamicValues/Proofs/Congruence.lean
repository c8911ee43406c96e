import DynamicValues.Proofs.Agreement
import DynamicValues.Proofs.Extrema

/-!
Equal values may stand for each other wherever values are ordered. They stand in one place of the order, so that a
sort and a choice of the least or the greatest item go the same way on lists that are equal item by item, whatever
the kinds of their numbers and the order of bindings in their dicts.
-/

set_option autoImplicit false

namespace DynamicValues

/-- Equal values of one world. -/
structure Value.Twins (w : World) (a b : Value) : Prop where
  left : a.Sound w
  right : b.Sound w
  equal : (a == b) = true

namespace Value.Twins

variable {w : World} {a b c d : Value}

theorem cmp_left (h : Twins w a b) (c : Value) : a.cmp c = b.cmp c :=
  Std.TransCmp.congr_left (cmp_eq_of_beq h.left h.right h.equal)

theorem cmp_right (h : Twins w a b) (c : Value) : c.cmp a = c.cmp b :=
  Std.TransCmp.congr_right (cmp_eq_of_beq h.left h.right h.equal)

theorem cmp_congr (h : Twins w a b) (h' : Twins w c d) : a.cmp c = b.cmp d :=
  (h.cmp_left c).trans (h'.cmp_right b)

theorem le_congr (h : Twins w a b) (h' : Twins w c d) : a.le c = b.le d := by
  rw [le, le, h.cmp_congr h']

end Value.Twins

section Items

variable {w : World} {xs ys : List Value}

theorem Items.forall₂_twins (hx : Items.Sound w xs) (hy : Items.Sound w ys)
    (equal : (Value.list xs == Value.list ys) = true) : List.Forall₂ (Value.Twins w) xs ys :=
  Value.forall₂_imp_of_mem (fun x memX y memY same => ⟨hx x memX, hy y memY, same⟩) (Value.beqItems_iff.1 equal)

theorem Items.beq_of_forall₂_twins (h : List.Forall₂ (Value.Twins w) xs ys) :
    (Value.list xs == Value.list ys) = true :=
  Value.beqItems_iff.2 (h.imp fun _ _ twins => twins.equal)

/-- Both lists are sorted by one sort of their pairs, since it does not matter by which of its items a pair is
compared. -/
theorem Items.sort_twins (h : List.Forall₂ (Value.Twins w) xs ys) :
    List.Forall₂ (Value.Twins w) (sort xs) (sort ys) := by
  obtain ⟨lengths, twins⟩ := List.forall₂_iff_zip.1 h
  let pairs := xs.zip ys
  let before (p q : Value × Value) : Bool := p.1.le q.1
  have byLeft : (pairs.mergeSort before).map Prod.fst = sort xs := by
    have same : ∀ p ∈ pairs, ∀ q ∈ pairs, before p q = p.1.le q.1 := fun _ _ _ _ => rfl
    rw [List.map_mergeSort same, List.map_fst_zip lengths.le]
    rfl
  have byRight : (pairs.mergeSort before).map Prod.snd = sort ys := by
    have agree : ∀ p ∈ pairs, ∀ q ∈ pairs, before p q = p.2.le q.2 :=
      fun p hp q hq => (twins hp).le_congr (twins hq)
    rw [List.map_mergeSort agree, List.map_snd_zip lengths.ge]
    rfl
  rw [← byLeft, ← byRight, List.forall₂_map_left_iff, List.forall₂_map_right_iff, List.forall₂_same]
  intro p hp
  exact twins (List.mem_mergeSort.1 hp)

theorem Extremum.choose_twins (e : Extremum) {best best' x y : Value} (h : Value.Twins w best best')
    (h' : Value.Twins w x y) : Value.Twins w (e.choose best x) (e.choose best' y) := by
  rw [choose, choose, h'.cmp_congr h]
  split
  · exact h'
  · exact h

theorem Extremum.foldl_choose_twins (e : Extremum) {best best' : Value} (h : Value.Twins w best best')
    (items : List.Forall₂ (Value.Twins w) xs ys) :
    Value.Twins w (xs.foldl e.choose best) (ys.foldl e.choose best') := by
  induction items generalizing best best' with
  | nil => exact h
  | cons head _ ih => exact ih (e.choose_twins h head)

theorem Run.exec_extremum_cons (e : Extremum) (x : Value) (xs : List Value) (s : Store) :
    ∃ t, exec (extremum e (.list (x :: xs))) s = (.ok (xs.foldl e.choose x), t) := by
  obtain ⟨i, t, enters⟩ := Value.exists_enters (Value.items?_list s (x :: xs))
  rw [enters.exec_extremum, e.foldl_choose]
  exact ⟨_, rfl⟩

end Items

/-- Equal values compare alike with every value. Lists that are equal are equal when sorted, in place or as new
lists, and their least items are equal, and so are their greatest. -/
theorem ordering_respects_equality {s : Session} (reachable : s.Reachable) :
    (∀ a b : Value, s.Holds a → s.Holds b → (a == b) = true → ∀ c, a.cmp c = b.cmp c ∧ c.cmp a = c.cmp b) ∧
    ∀ xs ys : List Value, s.Holds (.list xs) → s.Holds (.list ys) → (Value.list xs == Value.list ys) = true →
      (Value.list (Items.sort xs) == Value.list (Items.sort ys)) = true ∧
      (∀ store, ∃ t u, exec (Run.sorted (.list xs)) store = (.ok (.list (Items.sort xs)), t) ∧
        exec (Run.sorted (.list ys)) store = (.ok (.list (Items.sort ys)), u)) ∧
      (xs ≠ [] → ∀ which store, ∃ x y t u, exec (Run.extremum which (.list xs)) store = (.ok x, t) ∧
        exec (Run.extremum which (.list ys)) store = (.ok y, u) ∧ (x == y) = true) := by
  obtain ⟨w, hs⟩ := reachable.exists_sound
  constructor
  · intro a b ha hb equal c
    have twins : Value.Twins w a b := ⟨hs.of_holds ha, hs.of_holds hb, equal⟩
    exact ⟨twins.cmp_left c, twins.cmp_right c⟩
  · intro xs ys hx hy equal
    have twins := Items.forall₂_twins (fun _ => (hs.of_holds hx).part) (fun _ => (hs.of_holds hy).part) equal
    refine ⟨Items.beq_of_forall₂_twins (Items.sort_twins twins), ?_, ?_⟩
    · intro store
      obtain ⟨i, t, left⟩ := Value.exists_enters (Value.items?_list store xs)
      obtain ⟨j, u, right⟩ := Value.exists_enters (Value.items?_list store ys)
      exact ⟨_, _, left.exec_sorted, right.exec_sorted⟩
    · intro present which store
      cases twins with
      | nil => exact absurd rfl present
      | @cons x y xs ys head tail =>
        obtain ⟨t, left⟩ := Run.exec_extremum_cons which x xs store
        obtain ⟨u, right⟩ := Run.exec_extremum_cons which y ys store
        exact ⟨_, _, t, u, left, right, (which.foldl_choose_twins head tail).equal⟩

namespace Medley

/-- Two lists of a dict, a number and a truth value that are equal, with the kinds exchanged and the bindings in
another order. -/
def twins : List Call :=
  [⟨.query .identity [.list [.dict [(.int 1, .none), (.int 2, .none)], .int 1, .bool true]], some "left"⟩,
    ⟨.query .identity [.list [.dict [(.int 2, .none), (.bool true, .none)], .bool true, .int 1]], some "right"⟩]

def session : Session := (Session.empty.run [] twins).2

def left : List Value := [.dict ⟨[⟨1, .int 1, .none⟩, ⟨2, .int 2, .none⟩]⟩, .int 1, .bool true]

def right : List Value := [.dict ⟨[⟨2, .int 2, .none⟩, ⟨1, .bool true, .none⟩]⟩, .bool true, .int 1]

theorem vars_session : session.vars = [("right", .list right), ("left", .list left)] := rfl

theorem reachable_session : session.Reachable := ⟨[], twins, rfl⟩

theorem holds_left : session.Holds (.list left) := .of_var "left" (by simp [vars_session])

theorem holds_right : session.Holds (.list right) := .of_var "right" (by simp [vars_session])

end Medley

/-- The least item is the number of the one list and the truth value of the other. -/
theorem medley_ordered_alike :
    (Value.list Medley.left == Value.list Medley.right) = true ∧
    (Value.list (Items.sort Medley.left) == Value.list (Items.sort Medley.right)) = true ∧
    ∃ x y t u, exec (Run.extremum .min (.list Medley.left)) Medley.session.store = (.ok x, t) ∧
      exec (Run.extremum .min (.list Medley.right)) Medley.session.store = (.ok y, u) ∧ (x == y) = true := by
  have equal : (Value.list Medley.left == Value.list Medley.right) = true := by decide
  obtain ⟨-, lists⟩ := ordering_respects_equality Medley.reachable_session
  obtain ⟨sorted, -, extrema⟩ := lists _ _ Medley.holds_left Medley.holds_right equal
  exact ⟨equal, sorted, extrema nofun .min _⟩

end DynamicValues
