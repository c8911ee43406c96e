import DynamicValues.Proofs.Drain
import DynamicValues.Proofs.Hashing
import DynamicValues.Proofs.Rename

/-!
What happens beside a traversal. While a cursor is walked, the work on its items runs in a store in which this
cursor has moved on, and which has one cursor more if the traversal had to make it. None of this shows: the
items were there before the cursor was, so nothing inside them leads to it. The work therefore goes as it
would in the store without the traversal, up to the names of the iterators that it makes.
-/

set_option autoImplicit false

namespace DynamicValues

/-- The cursor moved past its next `n` items. -/
def Cursor.skip (c : Cursor) (n : Nat) : Cursor := ⟨c.items, c.position + n⟩

theorem Cursor.skip_skip (c : Cursor) (m n : Nat) : (c.skip m).skip n = c.skip (m + n) := by
  rw [skip, skip, skip, Nat.add_assoc]

theorem Cursor.rest_skip (c : Cursor) (n : Nat) : (c.skip n).rest = c.rest.drop n := by
  rw [skip, rest, rest, List.drop_drop]

@[simp] theorem Store.size_addCursor (s : Store) (items : List Value) :
    (s.addCursor items).2.cursors.size = s.cursors.size + 1 := by
  simp [addCursor]

theorem Store.cursor_addCursor_of_gt {s : Store} {items : List Value} {j : Nat} (h : s.cursors.size < j) :
    (s.addCursor items).2.cursor j = .start [] :=
  cursor_of_size_le (by rwa [size_addCursor])

/-- Only cursors that were made have items. -/
theorem Store.lt_size_of_mem_items {s : Store} {j : Nat} {x : Value} (hx : x ∈ (s.cursor j).items) :
    j < s.cursors.size := by
  by_contra missing
  rw [cursor_of_size_le (Nat.le_of_not_lt missing)] at hx
  simp [Cursor.start] at hx

/-- The traversal of a cursor. -/
structure Traversal where
  cursor : Nat
  /-- The number of cursors that there were before. -/
  old : Nat
  /-- The number of cursors that were made for the traversal. -/
  extra : Nat
  cursor_le : cursor ≤ old
  cursor_lt : cursor < old + extra

namespace Traversal

section Names

variable (k : Traversal) {base j : Nat}

/-- The name beside the traversal of an iterator that is called `j` without it. -/
def rename (j : Nat) : Nat := if j < k.old then j else j + k.extra

/-- The cursors that the work on an item can get at if it makes its own ones from `base` on: those from before
the one that is walked, and its own. -/
def Reaches (base j : Nat) : Prop := j < k.cursor ∨ (k.old ≤ j ∧ base ≤ j)

variable {k}

theorem rename_of_lt (h : j < k.old) : k.rename j = j := if_pos h

theorem rename_of_le (h : k.old ≤ j) : k.rename j = j + k.extra := if_neg (Nat.not_lt.2 h)

theorem rename_injective : Function.Injective k.rename := by
  intro i j same
  unfold rename at same
  split at same <;> split at same <;> omega

theorem Reaches.rename_ne (h : k.Reaches base j) : k.rename j ≠ k.cursor := by
  have cursor_le := k.cursor_le
  have cursor_lt := k.cursor_lt
  rcases h with before | ⟨new, -⟩
  · rw [rename_of_lt (Nat.lt_of_lt_of_le before cursor_le)]
    omega
  · rw [rename_of_le new]
    omega

theorem rename_of_below {v : Value} (h : v.Below k.old) : v.rename k.rename = v :=
  Value.rename_eq_self fun j inner => rename_of_lt (h j inner)

end Names

variable (k : Traversal)

/-- The second store, beside the traversal, agrees with the first one on all cursors but the one that is
walked. -/
structure Mirrors (s t : Store) : Prop where
  storages : t.storages = s.storages
  cursor : ∀ j, k.rename j ≠ k.cursor → t.cursor (k.rename j) = (s.cursor j).rename k.rename

/-- The stores amid the traversal, which has come to the cursor `c`. -/
structure Beside (c : Cursor) (s t : Store) : Prop extends k.Mirrors s t where
  old_le : k.old ≤ s.cursors.size
  size_eq : t.cursors.size = s.cursors.size + k.extra
  grounded : ∀ j, j < k.old → ∀ x ∈ (s.cursor j).items, x.Below j
  here : t.cursor k.cursor = c

/-- The stores amid the work on an item: nothing in the cursors that it has made, which are those from `base` on,
leads to the one that is walked. -/
structure Follows (base : Nat) (c : Cursor) (s t : Store) : Prop extends k.Beside c s t where
  base_le : base ≤ s.cursors.size
  fresh : ∀ j, base ≤ j → ∀ x ∈ (s.cursor j).items, x.Below k.cursor

namespace Beside

variable {k} {c : Cursor} {s t : Store} {j : Nat}

theorem rename_size (h : k.Beside c s t) : k.rename s.cursors.size = t.cursors.size := by
  rw [rename_of_le h.old_le, h.size_eq]

theorem rename_lt (h : k.Beside c s t) (made : j < s.cursors.size) : k.rename j < t.cursors.size := by
  have old_le := h.old_le
  rw [h.size_eq, rename]
  split <;> omega

theorem le_rename (h : k.Beside c s t) (missing : s.cursors.size ≤ j) : t.cursors.size ≤ k.rename j := by
  rw [h.size_eq, rename_of_le (h.old_le.trans missing)]
  omega

theorem cursor_lt_size (h : k.Beside c s t) : k.cursor < t.cursors.size := by
  have cursor_lt := k.cursor_lt
  have old_le := h.old_le
  rw [h.size_eq]
  omega

theorem addStorage (h : k.Beside c s t) : k.Beside c s.addStorage.2 t.addStorage.2 :=
  ⟨⟨congrArg (· + 1) h.storages, h.cursor⟩, h.old_le, h.size_eq, h.grounded, h.here⟩

/-- A new cursor keeps the stores alike, whatever iterators its items hold. -/
theorem addCursor (h : k.Beside c s t) (items : List Value) :
    k.Beside c (s.addCursor items).2 (t.addCursor (items.map (Value.rename k.rename))).2 := by
  refine ⟨⟨h.storages, ?_⟩, ?_, ?_, ?_, ?_⟩
  · intro j apart
    rcases Nat.lt_trichotomy j s.cursors.size with made | rfl | missing
    · rw [Store.cursor_addCursor_of_lt made, Store.cursor_addCursor_of_lt (h.rename_lt made)]
      exact h.cursor j apart
    · rw [h.rename_size]
      exact (Store.cursor_addCursor t _).trans
        ((Cursor.rename_start items).symm.trans (congrArg _ (Store.cursor_addCursor s items).symm))
    · have missing' : t.cursors.size < k.rename j := by
        rw [h.size_eq, rename_of_le (h.old_le.trans missing.le)]
        omega
      rw [Store.cursor_addCursor_of_gt missing, Store.cursor_addCursor_of_gt missing', Cursor.rename_start,
        List.map_nil]
  · rw [Store.size_addCursor]
    exact Nat.le_succ_of_le h.old_le
  · rw [Store.size_addCursor, Store.size_addCursor, h.size_eq, Nat.add_right_comm]
  · intro j old
    rw [Store.cursor_addCursor_of_lt (Nat.lt_of_lt_of_le old h.old_le)]
    exact h.grounded j old
  · rw [Store.cursor_addCursor_of_lt h.cursor_lt_size, h.here]

/-- Both stores move a cursor other than the one that is walked. -/
theorem skip (h : k.Beside c s t) (apart : k.rename j ≠ k.cursor) (n : Nat) :
    k.Beside c (s.skip j n) (t.skip (k.rename j) n) := by
  refine ⟨⟨h.storages, ?_⟩, ?_, ?_, ?_, ?_⟩
  · intro i apart'
    by_cases same : j = i
    · subst same
      by_cases made : j < s.cursors.size
      · rw [Store.cursor_skip made, Store.cursor_skip (h.rename_lt made), h.cursor j apart]
        rfl
      · have missing := Nat.le_of_not_lt made
        have gone : (s.skip j n).cursor j = .start [] := Store.cursor_of_size_le (by simpa using missing)
        have gone' : (t.skip (k.rename j) n).cursor (k.rename j) = .start [] :=
          Store.cursor_of_size_le (by simpa using h.le_rename missing)
        rw [gone, gone', Cursor.rename_start, List.map_nil]
    · rw [Store.cursor_skip_of_ne same, Store.cursor_skip_of_ne (rename_injective.ne same)]
      exact h.cursor i apart'
  · simpa using h.old_le
  · simpa using h.size_eq
  · intro i old
    rw [Store.items_skip]
    exact h.grounded i old
  · rw [Store.cursor_skip_of_ne apart, h.here]

/-- The traversal goes on; without it nothing happens. -/
theorem walk (h : k.Beside c s t) (n : Nat) : k.Beside (c.skip n) s (t.skip k.cursor n) := by
  refine ⟨⟨h.storages, ?_⟩, h.old_le, ?_, h.grounded, ?_⟩
  · intro j apart
    rw [Store.cursor_skip_of_ne apart.symm]
    exact h.cursor j apart
  · simpa using h.size_eq
  · rw [Store.cursor_skip h.cursor_lt_size, h.here]
    rfl

end Beside

namespace Follows

variable {k} {base : Nat} {c : Cursor} {s t : Store} {j : Nat}

theorem confined (h : k.Follows base c s t) (reached : k.Reaches base j) :
    ∀ x ∈ (s.cursor j).items, x.Below k.cursor := by
  intro x hx
  rcases reached with before | ⟨-, own⟩
  · exact (h.grounded j (Nat.lt_of_lt_of_le before k.cursor_le) x hx).mono before.le
  · exact h.fresh j own x hx

/-- A cursor that the work on an item gets at is the same in both stores. -/
theorem cursor_eq (h : k.Follows base c s t) (reached : k.Reaches base j) :
    t.cursor (k.rename j) = s.cursor j := by
  rw [h.cursor j reached.rename_ne]
  refine Cursor.rename_eq_self fun x hx => rename_of_below ?_
  exact (h.confined reached x hx).mono k.cursor_le

theorem addStorage (h : k.Follows base c s t) : k.Follows base c s.addStorage.2 t.addStorage.2 :=
  ⟨h.toBeside.addStorage, h.base_le, h.fresh⟩

theorem addCursor (h : k.Follows base c s t) {items : List Value} (below : ∀ x ∈ items, x.Below k.cursor) :
    k.Follows base c (s.addCursor items).2 (t.addCursor items).2 := by
  have same : items.map (Value.rename k.rename) = items :=
    Value.map_rename_eq_self fun x hx => rename_of_below ((below x hx).mono k.cursor_le)
  have beside := h.toBeside.addCursor items
  rw [same] at beside
  refine ⟨beside, ?_, ?_⟩
  · rw [Store.size_addCursor]
    exact Nat.le_succ_of_le h.base_le
  · intro j own x hx
    have made := Store.lt_size_of_mem_items hx
    rw [Store.size_addCursor] at made
    rcases Nat.lt_succ_iff_lt_or_eq.1 made with older | rfl
    · rw [Store.cursor_addCursor_of_lt older] at hx
      exact h.fresh j own x hx
    · have start : (s.addCursor items).2.cursor s.cursors.size = .start items := s.cursor_addCursor items
      rw [start] at hx
      exact below x (by simpa [Cursor.start] using hx)

theorem skip (h : k.Follows base c s t) (reached : k.Reaches base j) (n : Nat) :
    k.Follows base c (s.skip j n) (t.skip (k.rename j) n) := by
  refine ⟨h.toBeside.skip reached.rename_ne n, ?_, ?_⟩
  · simpa using h.base_le
  · intro i own
    rw [Store.items_skip]
    exact h.fresh i own

end Follows

/-- No iterator inside the value goes by the name of the one that is walked. -/
def Apart (v : Value) : Prop := ∀ j, Value.Within Value.parts (.iter j) v → k.rename j ≠ k.cursor

/-- The outcomes of the same work without the traversal and beside it: related results, or the same error up to
names. -/
inductive Matches {α : Type} (rel : α → α → Prop) : Except Error α → Except Error α → Prop
  | ok {a b : α} : rel a b → Matches rel (.ok a) (.ok b)
  | error {e : Error} : (∀ v ∈ e.values, k.Apart v) → Matches rel (.error e) (.error (e.rename k.rename))

end Traversal

/-- The same thing twice, of which something holds. -/
def Same {α : Type} (p : α → Prop) (a b : α) : Prop := b = a ∧ p a

namespace Traversal

variable {k : Traversal} {α β : Type}

namespace Matches

variable {rel : α → α → Prop}

theorem imp {rel' : α → α → Prop} {x y : Except Error α} (h : k.Matches rel x y)
    (weaken : ∀ a b, rel a b → rel' a b) : k.Matches rel' x y := by
  cases h with
  | ok related => exact .ok (weaken _ _ related)
  | error apart => exact .error apart

theorem error_of_old {e : Error} (old : ∀ v ∈ e.values, v.Below k.old) (apart : ∀ v ∈ e.values, k.Apart v) :
    k.Matches rel (.error e) (.error e) := by
  have renamed : e.rename k.rename = e := Error.rename_eq_self fun v hv => rename_of_below (old v hv)
  have error : k.Matches rel (.error e) (.error (e.rename k.rename)) := .error apart
  rwa [renamed] at error

/-- An error that names no values. -/
theorem plain {e : Error} (h : e.values = []) : k.Matches rel (.error e) (.error e) :=
  error_of_old (by simp [h]) (by simp [h])

end Matches

/-- The two computations keep the stores related and have outcomes that match. -/
def Paired (k : Traversal) (R : Store → Store → Prop) (rel : α → α → Prop) (m m' : Run α) : Prop :=
  ∀ ⦃s t : Store⦄, R s t → R (exec m s).2 (exec m' t).2 ∧ k.Matches rel (exec m s).1 (exec m' t).1

/-- The second computation does beside the traversal what the first one does without it. -/
def Mirrored (k : Traversal) (rel : α → α → Prop) (m m' : Run α) : Prop :=
  ∀ c : Cursor, k.Paired (k.Beside c) rel m m'

namespace Paired

variable {R : Store → Store → Prop} {rel : α → α → Prop} {rel' : β → β → Prop} {m m' : Run α}

theorem pure {a b : α} (h : rel a b) : k.Paired R rel (pure a) (pure b) :=
  fun _ _ related => ⟨related, .ok h⟩

theorem throw {e : Error} (h : e.values = []) : k.Paired R rel (throw e) (throw e) :=
  fun _ _ related => ⟨related, .plain h⟩

theorem lift {x : Except Error α} (h : k.Matches rel x x) : k.Paired R rel (liftM x) (liftM x) :=
  fun _ _ related => ⟨related, h⟩

theorem imp {rel₂ : α → α → Prop} (h : k.Paired R rel m m') (weaken : ∀ a b, rel a b → rel₂ a b) :
    k.Paired R rel₂ m m' :=
  fun _ _ related => ⟨(h related).1, (h related).2.imp weaken⟩

theorem bind {f f' : α → Run β} (hm : k.Paired R rel m m')
    (hf : ∀ a b, rel a b → k.Paired R rel' (f a) (f' b)) : k.Paired R rel' (m >>= f) (m' >>= f') := by
  intro s t related
  obtain ⟨after, outcome⟩ := hm related
  rw [exec_bind, exec_bind]
  rcases ran : exec m s with ⟨o, s'⟩
  rcases ran' : exec m' t with ⟨o', t'⟩
  rw [ran, ran'] at after outcome
  cases outcome with
  | ok results => exact hf _ _ results after
  | error apart => exact ⟨after, .error apart⟩

theorem map {f f' : α → β} (hm : k.Paired R rel m m') (hf : ∀ a b, rel a b → rel' (f a) (f' b)) :
    k.Paired R rel' (do return f (← m)) (do return f' (← m')) :=
  hm.bind fun a b related => .pure (hf a b related)

end Paired

section Primitives

variable {base j : Nat} {c : Cursor} {v : Value} {items : List Value}

end Primitives

section Folds

variable {R : Store → Store → Prop} {rel : β → β → Prop} {f : β → Value → Run β} {base j : Nat} {c : Cursor}

/-- One round of a fold does the same beside the traversal as without it. -/
def Steady (k : Traversal) (R : Store → Store → Prop) (rel : β → β → Prop) (f : β → Value → Run β) : Prop :=
  ∀ b b' x, rel b b' → x.Below k.cursor → k.Paired R rel (f b x) (f b' x)

variable {P : Value → Prop}

end Folds

/-- The results of the same work without the traversal and beside it: the same up to names, and without the
iterator that is walked. -/
structure Carries (k : Traversal) (y y' : Value) : Prop where
  renamed : y' = y.rename k.rename
  apart : k.Apart y

/-- Results look the same at the moment when they are there. -/
theorem Carries.view_eq {y y' : Value} (h : k.Carries y y') {s t : Store} (mirrors : k.Mirrors s t) :
    y'.view t = y.view s := by
  rw [h.renamed]
  exact Value.view_rename fun j inner => mirrors.cursor j (h.apart j inner)

/-- The function does to every item beside the traversal what it does to it without. -/
def IgnoredBy (k : Traversal) (f : Value → Run Value) : Prop :=
  ∀ x : Value, x.Below k.cursor → k.Mirrored k.Carries (f x) (f x)

end Traversal

namespace Callback

variable {k : Traversal} {base : Nat} {c : Cursor} {x : Value}

open Traversal

end Callback
end DynamicValues
