import DynamicValues.Proofs.Drain
import DynamicValues.Zip

/-!
Rows of items from several cursors. A row is a series of draws, one from each cursor in order, and the rows together
are one long series: the cursors over and over again, up to the first draw from a cursor that has nothing left. What a
draw gives depends only on how often its cursor has been drawn from before, so that one account covers different
cursors and cursors that come several times.
-/

set_option autoImplicit false

namespace DynamicValues

namespace Store

/-- The store after one item has been taken from each of the cursors. A cursor may come several times. -/
def draw (s : Store) (is : List Nat) : Store := is.foldl (fun s i => s.skip i 1) s

/-- The item that a cursor gives next after the draws before. -/
def drawn? (s : Store) (before : List Nat) (i : Nat) : Option Value := (s.cursor i).rest[before.count i]?

variable {s : Store} {i j : Nat}

@[simp] theorem draw_nil (s : Store) : s.draw [] = s := rfl

theorem draw_cons (s : Store) (i : Nat) (is : List Nat) : s.draw (i :: is) = (s.skip i 1).draw is := rfl

theorem draw_append (s : Store) (is js : List Nat) : s.draw (is ++ js) = (s.draw is).draw js :=
  List.foldl_append

@[simp] theorem storages_draw (s : Store) (is : List Nat) : (s.draw is).storages = s.storages := by
  induction is generalizing s with
  | nil => rfl
  | cons i is ih => exact ih (s.skip i 1)

/-- Draws have nothing to do with storages. -/
theorem cursors_draw_congr {s t : Store} (h : s.cursors = t.cursors) (is : List Nat) :
    (s.draw is).cursors = (t.draw is).cursors := by
  induction is generalizing s t with
  | nil => exact h
  | cons i is ih => exact ih (congrArg (·.modify i fun c => ⟨c.items, c.position + 1⟩) h)

theorem rest_draw (s : Store) (is : List Nat) (i : Nat) :
    ((s.draw is).cursor i).rest = (s.cursor i).rest.drop (is.count i) := by
  induction is generalizing s with
  | nil => rw [draw_nil, List.count_nil, List.drop_zero]
  | cons j is ih =>
    rw [draw_cons, ih]
    by_cases same : j = i
    · rw [same, rest_skip, List.drop_drop, List.count_cons_self, Nat.add_comm]
    · rw [cursor_skip_of_ne same, List.count_cons_of_ne same]

theorem cursor_draw (made : i < s.cursors.size) (is : List Nat) :
    (s.draw is).cursor i = ⟨(s.cursor i).items, (s.cursor i).position + is.count i⟩ := by
  induction is generalizing s with
  | nil => rfl
  | cons j is ih =>
    rw [draw_cons, ih (by rwa [size_skip])]
    by_cases same : j = i
    · rw [same, cursor_skip made, List.count_cons_self, Nat.add_assoc, Nat.add_comm 1]
    · rw [cursor_skip_of_ne same, List.count_cons_of_ne same]

theorem drawn?_draw (s : Store) (is before : List Nat) (i : Nat) :
    (s.draw is).drawn? before i = s.drawn? (is ++ before) i := by
  rw [drawn?, drawn?, rest_draw, List.getElem?_drop, List.count_append]

theorem drawn?_eq_none_iff {before : List Nat} :
    s.drawn? before i = none ↔ (s.cursor i).remaining ≤ before.count i := by
  rw [drawn?, List.getElem?_eq_none_iff, Cursor.length_rest]

/-- The items come from the cursors, one draw after the other. -/
structure Row (s : Store) (is : List Nat) (row : List Value) : Prop where
  length_eq : row.length = is.length
  item : ∀ before i after, is = before ++ i :: after → row[before.length]? = s.drawn? before i

namespace Row

variable {is before after : List Nat} {row xs : List Value} {x : Value}

theorem nil (s : Store) : s.Row [] [] where
  length_eq := rfl
  item := by simp

theorem cons (h : (s.cursor i).rest = x :: xs) (later : (s.skip i 1).Row is row) : s.Row (i :: is) (x :: row) where
  length_eq := by rw [List.length_cons, List.length_cons, later.length_eq]
  item := by
    intro before j after parts
    cases before with
    | nil =>
      cases parts
      simp [drawn?, h]
    | cons k before =>
      cases parts
      rw [List.length_cons, List.getElem?_cons_succ, later.item before j after rfl]
      exact drawn?_draw s [i] before j

theorem congr {t : Store} (h : s.Row is row) (same : s.cursors = t.cursors) : t.Row is row := by
  obtain ⟨cursors, storages⟩ := s
  cases same
  exact ⟨h.length_eq, h.item⟩

/-- Every cursor of a row has an item for it, also after other draws. -/
theorem count_lt {js : List Nat} (h : (s.draw js).Row is row) (parts : is = before ++ i :: after) :
    (js ++ before).count i < (s.cursor i).remaining := by
  have inside : before.length < row.length := by
    rw [h.length_eq, parts, List.length_append, List.length_cons]
    omega
  have item := h.item before i after parts
  rw [List.getElem?_eq_getElem inside, drawn?_draw] at item
  by_contra past
  rw [drawn?_eq_none_iff.2 (Nat.le_of_not_lt past)] at item
  cases item

/-- A cursor has at least as many items as are drawn from it. -/
theorem count_le {js : List Nat} (h : (s.draw js).Row is row) (mem : i ∈ is) :
    js.count i + is.count i ≤ (s.cursor i).remaining := by
  obtain ⟨back, front, parts, last⟩ := List.eq_append_cons_of_mem (List.mem_reverse.2 mem)
  have split : is = front.reverse ++ i :: back.reverse := by
    rw [← List.reverse_reverse is, parts, List.reverse_append, List.reverse_cons, List.append_assoc,
      List.singleton_append]
  have available := h.count_lt split
  have none : back.reverse.count i = 0 := List.count_eq_zero.2 (by simpa using last)
  have total : is.count i = front.reverse.count i + 1 := by
    rw [split, List.count_append, List.count_cons_self, none]
  rw [List.count_append] at available
  omega

end Row
end Store

/-- The cursors over and over again. -/
def laps (is : List Nat) (n : Nat) : List Nat := (List.replicate n is).flatten

theorem laps_succ (is : List Nat) (n : Nat) : laps is (n + 1) = is ++ laps is n := by
  rw [laps, List.replicate_succ, List.flatten_cons, ← laps]

theorem count_laps (is : List Nat) (n i : Nat) : (laps is n).count i = n * is.count i := by
  rw [laps, List.count_flatten, List.map_replicate, List.sum_replicate_nat]

namespace Run

variable {is : List Nat} {s t u : Store} {row rows : List Value} {i : Nat}

/-- A row takes one item from each cursor, or is given up at the first cursor that has none. -/
theorem pullRow_cases (is : List Nat) (s : Store) :
    (∃ row, exec (pullRow is) s = (.ok (some row), s.draw is) ∧ s.Row is row) ∨
    ∃ before i after, is = before ++ i :: after ∧ exec (pullRow is) s = (.ok none, s.draw before) ∧
      (∃ row, s.Row before row) ∧ s.drawn? before i = none := by
  induction is generalizing s with
  | nil => exact .inl ⟨[], rfl, .nil s⟩
  | cons i is ih =>
    rw [pullRow, exec_next_bind]
    cases rest : (s.cursor i).rest with
    | nil =>
      refine .inr ⟨[], i, is, rfl, ?_, ⟨[], .nil s⟩, ?_⟩
      · rw [Store.advance_of_rest_nil rest]
        rfl
      · rw [Store.drawn?, rest, List.getElem?_nil]
    | cons x xs =>
      rw [Store.advance_of_rest_cons rest]
      dsimp only
      rw [exec_bind]
      rcases ih (s.skip i 1) with ⟨row, pulled, later⟩ | ⟨before, j, after, rfl, given_up, ⟨row, later⟩, none⟩
      · rw [pulled]
        exact .inl ⟨x :: row, rfl, .cons rest later⟩
      · rw [given_up]
        refine .inr ⟨i :: before, j, after, rfl, rfl, ⟨x :: row, .cons rest later⟩, ?_⟩
        rw [← none]
        exact (Store.drawn?_draw s [i] before j).symm

theorem row_of_pullRow (h : exec (pullRow is) s = (.ok (some row), t)) : t = s.draw is ∧ s.Row is row := by
  rcases pullRow_cases is s with ⟨row', pulled, items⟩ | ⟨before, i, after, -, given_up, -, -⟩
  · cases pulled.symm.trans h
    exact ⟨rfl, items⟩
  · cases given_up.symm.trans h

/-- The loop without a bound on its rounds: rows are taken and made tuples of, until one is given up. -/
inductive Zips (is : List Nat) : Store → List Value → Store → Prop
  | stops {s t : Store} (given_up : exec (pullRow is) s = (.ok none, t)) : Zips is s [] t
  | takes {s t u : Store} {row rows : List Value} (pulled : exec (pullRow is) s = (.ok (some row), t))
      (later : Zips is t.addStorage.2 rows u) : Zips is s (.tuple t.storages row :: rows) u

/-- Every row takes an item from the first cursor. -/
theorem remaining_of_pullRow (h : exec (pullRow (i :: is)) s = (.ok (some row), t)) :
    (t.addStorage.2.cursor i).remaining < (s.cursor i).remaining := by
  obtain ⟨rfl, items⟩ := row_of_pullRow h
  have first : (s.draw []).Row (i :: is) row := items
  have available := first.count_le List.mem_cons_self
  have counted : 0 < (i :: is).count i := List.count_pos_iff.2 List.mem_cons_self
  rw [Store.cursor_addStorage, ← Cursor.length_rest, Store.rest_draw, List.length_drop, Cursor.length_rest]
  omega

theorem exists_zips (i : Nat) (is : List Nat) (s : Store) : ∃ rows t, Zips (i :: is) s rows t := by
  generalize left : (s.cursor i).remaining = n
  induction n using Nat.strong_induction_on generalizing s with
  | h n ih =>
    subst left
    rcases pullRow_cases (i :: is) s with ⟨row, pulled, -⟩ | ⟨before, j, after, -, given_up, -⟩
    · obtain ⟨rows, t, later⟩ := ih _ (remaining_of_pullRow pulled) _ rfl
      exact ⟨_, t, .takes pulled later⟩
    · exact ⟨[], _, .stops given_up⟩

/-- The bound on the rounds does not show: it is never reached before a row is given up, or reached just when the
first cursor has nothing left, so that giving up the next row would take nothing. -/
theorem exec_zipLoop (h : Zips (i :: is) s rows u) {rounds : Nat} (enough : (s.cursor i).remaining ≤ rounds)
    (before : List Value) : exec (zipLoop (i :: is) rounds before) s = (.ok (before.reverse ++ rows), u) := by
  induction h generalizing rounds before with
  | @stops s t given_up =>
    rw [List.append_nil]
    cases rounds with
    | zero =>
      have nothing : (s.cursor i).rest = [] := by
        rw [List.eq_nil_iff_length_eq_zero, Cursor.length_rest]
        exact Nat.le_zero.1 enough
      rw [pullRow, exec_next_bind, Store.advance_of_rest_nil nothing] at given_up
      cases given_up
      rfl
    | succ rounds =>
      rw [zipLoop, exec_bind, given_up]
      rfl
  | @takes s t u row rows pulled later ih =>
    have fewer := remaining_of_pullRow pulled
    obtain ⟨rounds, rfl⟩ := Nat.exists_eq_add_one_of_ne_zero (by omega : rounds ≠ 0)
    have made : exec (newTuple row) t = (.ok (.tuple t.storages row), t.addStorage.2) := rfl
    rw [zipLoop, exec_bind, pulled]
    dsimp only
    rw [exec_bind, made]
    dsimp only
    rw [ih (by omega), List.reverse_cons, List.append_assoc, List.singleton_append]

/-- The whole loop as one series of draws. The rows are its laps, in order and with storages of their own, and it ends
within a lap at the first draw that gives nothing. -/
structure Account (is : List Nat) (s : Store) (rows : List Value) (t : Store) (before : List Nat) (i : Nat) : Prop where
  lap : ∀ m, m < rows.length →
    ∃ row, rows[m]? = some (.tuple (s.storages + m) row) ∧ (s.draw (laps is m)).Row is row
  unfinished : ∃ row, (s.draw (laps is rows.length)).Row before row
  nothing : s.drawn? (laps is rows.length ++ before) i = none
  drawn : t.cursors = (s.draw (laps is rows.length ++ before)).cursors

theorem Zips.exists_account (h : Zips is s rows t) :
    ∃ before i after, is = before ++ i :: after ∧ Account is s rows t before i := by
  induction h with
  | @stops s t given_up =>
    rcases pullRow_cases is s with ⟨row, pulled, -⟩ | ⟨before, i, after, parts, given_up', row, none⟩
    · cases pulled.symm.trans given_up
    · cases given_up'.symm.trans given_up
      exact ⟨before, i, after, parts, nofun, row, none, rfl⟩
  | @takes s t u row rows pulled later ih =>
    obtain ⟨rfl, items⟩ := row_of_pullRow pulled
    obtain ⟨before, i, after, parts, account⟩ := ih
    have shifted (js : List Nat) :
        ((s.draw is).addStorage.2.draw js).cursors = (s.draw (is ++ js)).cursors := by
      have same : (s.draw is).addStorage.2.cursors = (s.draw is).cursors := rfl
      rw [Store.cursors_draw_congr same, s.draw_append]
    refine ⟨before, i, after, parts, ?_, ?_, ?_, ?_⟩
    · intro m inside
      cases m with
      | zero => exact ⟨row, by simp, items⟩
      | succ m =>
        obtain ⟨row', there, items'⟩ := account.lap m (by simpa using inside)
        refine ⟨row', ?_, ?_⟩
        · rw [List.getElem?_cons_succ, there]
          simp [Store.addStorage, Nat.add_assoc, Nat.add_comm 1]
        · rw [laps_succ]
          exact items'.congr (shifted _)
    · obtain ⟨row', items'⟩ := account.unfinished
      refine ⟨row', ?_⟩
      rw [List.length_cons, laps_succ]
      exact items'.congr (shifted _)
    · rw [List.length_cons, laps_succ, List.append_assoc, ← Store.drawn?_draw]
      exact account.nothing
    · rw [List.length_cons, laps_succ, List.append_assoc, account.drawn]
      exact shifted _

namespace Account

variable {before : List Nat} {k : Nat}

/-- Where the loop leaves a cursor. -/
theorem cursor_eq (h : Account is s rows t before i) (made : k < s.cursors.size) :
    t.cursor k =
      ⟨(s.cursor k).items, (s.cursor k).position + (rows.length * is.count k + before.count k)⟩ := by
  have same : t.cursor k = (s.draw (laps is rows.length ++ before)).cursor k :=
    congrArg (·.getD k (.start [])) h.drawn
  rw [same, Store.cursor_draw made, List.count_append, count_laps]

theorem cursor_eq_of_notMem {after : List Nat} (h : Account is s rows t before i) (parts : is = before ++ i :: after)
    (made : k < s.cursors.size) (absent : k ∉ is) : t.cursor k = s.cursor k := by
  have outside : k ∉ before := fun mem => absent (parts ▸ List.mem_append_left _ mem)
  rw [h.cursor_eq made, List.count_eq_zero.2 absent, List.count_eq_zero.2 outside]
  rfl

theorem available (h : Account is s rows t before i) (mem : k ∈ is) :
    rows.length * is.count k + before.count k ≤ (s.cursor k).remaining := by
  by_cases again : k ∈ before
  · obtain ⟨row, items⟩ := h.unfinished
    have drawn := items.count_le again
    rwa [count_laps] at drawn
  · rw [List.count_eq_zero.2 again, Nat.add_zero]
    cases rounds : rows.length with
    | zero => rw [Nat.zero_mul]; exact Nat.zero_le _
    | succ m =>
      obtain ⟨row, -, items⟩ := h.lap m (by omega)
      have drawn := items.count_le mem
      rwa [count_laps, ← Nat.succ_mul] at drawn

theorem exhausted (h : Account is s rows t before i) :
    (s.cursor i).remaining ≤ rows.length * is.count i + before.count i := by
  have nothing := Store.drawn?_eq_none_iff.1 h.nothing
  rwa [List.count_append, count_laps] at nothing

end Account
end Run
end DynamicValues
