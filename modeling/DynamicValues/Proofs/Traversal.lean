import DynamicValues.Proofs.Mirror

/-!
Loops along a traversal. A loop over a cursor does what the loop over the plain list of items does without any
cursor, up to the names of the iterators that are made on the way, and takes exactly the items that this loop
looks at.
-/

set_option autoImplicit false

namespace DynamicValues

/-- The number of items that are taken from `total` ones by a loop that may stop at an item. -/
def pulled (stop : Option Nat) (total : Nat) : Nat := stop.elim total (· + 1)

theorem pulled_succ (stop : Option Nat) (total : Nat) :
    pulled (stop.map (· + 1)) (total + 1) = 1 + pulled stop total := by
  cases stop with
  | none => exact Nat.add_comm total 1
  | some j => exact Nat.add_comm (j + 1) 1

namespace Run

variable {β : Type}

/-- The first item at which a fold over a list fails. -/
def stop? (f : β → Value → Run β) : β → List Value → Store → Option Nat
  | _, [], _ => none
  | b, x :: xs, s =>
    match exec (f b x) s with
    | (.error _, _) => some 0
    | (.ok b, t) => (stop? f b xs t).map (· + 1)

/-- The first item at which a function fails that is applied to one item after the other. -/
def failing? (f : Value → Run Value) : List Value → Store → Option Nat
  | [], _ => none
  | x :: xs, s =>
    match exec (f x) s with
    | (.error _, _) => some 0
    | (.ok _, t) => (failing? f xs t).map (· + 1)

/-- What can be seen of a function that is applied to one item after the other until it fails. -/
def observeItems (f : Value → Run Value) : List Value → List View → Run (List View × Option Error)
  | [], seen => return (seen.reverse, none)
  | x :: xs, seen => do
    match ← attempt (f x) with
    | .error e => return (seen.reverse, some e)
    | .ok y => do observeItems f xs (y.view (← get) :: seen)

/-- Adds the result for an item to those before, the latest of which comes first. -/
def push (f : Value → Run Value) (ys : List Value) (x : Value) : Run (List Value) := return (← f x) :: ys

theorem exec_attempt {α : Type} (m : Run α) (s : Store) :
    exec (attempt m) s = (.ok (exec m s).1, (exec m s).2) := rfl

theorem exec_get_bind {α : Type} (f : Store → Run α) (s : Store) : exec (get >>= f) s = exec (f s) s := rfl

end Run

namespace Traversal

variable {k : Traversal} {α β : Type} {c : Cursor} {s t : Store} {v : Value} {xs : List Value}

section Loops

variable {rel : β → β → Prop} {f : β → Value → Run β} {b b' : β}

/-- Taking an item only moves the cursor that is walked. -/
theorem Beside.next {x : Value} (beside : k.Beside c s t) (rest : c.rest = x :: xs)
    (g : Option Value → Run α) :
    exec (Run.next k.cursor >>= g) t = exec (g (some x)) (t.skip k.cursor 1) := by
  have rest : (t.cursor k.cursor).rest = x :: xs := beside.here ▸ rest
  rw [Run.exec_next_bind, Store.advance_of_rest_cons rest]

theorem rest_of_cons {x : Value} (rest : c.rest = x :: xs) : (c.skip 1).rest = xs := by
  rw [Cursor.rest_skip, rest]
  rfl

/-- A fold over the cursor goes like one over the plain list of items. Each round first moves the cursor, of which
the store without the traversal sees nothing. -/
theorem Beside.foldLoop (steady : ∀ c, k.Steady (k.Beside c) rel f) (beside : k.Beside c s t)
    (rest : c.rest = xs) (below : ∀ x ∈ xs, x.Below k.cursor) (start : rel b b') :
    k.Beside (c.skip (pulled (Run.stop? f b xs s) xs.length)) (exec (xs.foldlM f b) s).2
        (exec (Run.foldLoop k.cursor f xs.length b') t).2 ∧
      k.Matches rel (exec (xs.foldlM f b) s).1 (exec (Run.foldLoop k.cursor f xs.length b') t).1 := by
  induction xs generalizing c s t b b' with
  | nil => exact ⟨beside, .ok start⟩
  | cons x xs ih =>
    obtain ⟨below_x, below⟩ := List.forall_mem_cons.1 below
    obtain ⟨after, outcome⟩ := steady _ b b' x start below_x (beside.walk 1)
    rw [List.length_cons, Run.foldLoop, beside.next rest, List.foldlM_cons]
    dsimp only
    rw [exec_bind, exec_bind, Run.stop?]
    rcases ran : exec (f b x) s with ⟨o, s'⟩
    rcases ran' : exec (f b' x) (t.skip k.cursor 1) with ⟨o', t'⟩
    rw [ran, ran'] at after outcome
    cases outcome with
    | error apart => exact ⟨after, .error apart⟩
    | ok related =>
      dsimp only
      rw [pulled_succ, ← Cursor.skip_skip]
      exact ih after (rest_of_cons rest) below related

/-- What was seen without the traversal and beside it, with the error at which the walk has stopped. -/
structure Shows (k : Traversal) (r r' : List View × Option Error) : Prop where
  views : r'.1 = r.1
  error : r'.2 = r.2.map (Error.rename k.rename)
  apart : ∀ e, r.2 = some e → ∀ v ∈ e.values, k.Apart v

/-- What is seen along the cursor is seen along the plain list of items. -/
theorem Beside.observeLoop {f : Value → Run Value} (ignored : k.IgnoredBy f) (beside : k.Beside c s t)
    (rest : c.rest = xs) (below : ∀ x ∈ xs, x.Below k.cursor) (seen : List View) :
    k.Beside (c.skip (pulled (Run.failing? f xs s) xs.length)) (exec (Run.observeItems f xs seen) s).2
        (exec (Run.observeLoop k.cursor f xs.length seen) t).2 ∧
      k.Matches k.Shows (exec (Run.observeItems f xs seen) s).1
        (exec (Run.observeLoop k.cursor f xs.length seen) t).1 := by
  induction xs generalizing c s t seen with
  | nil => exact ⟨beside, .ok ⟨rfl, rfl, nofun⟩⟩
  | cons x xs ih =>
    obtain ⟨below_x, below⟩ := List.forall_mem_cons.1 below
    obtain ⟨after, outcome⟩ := ignored x below_x _ (beside.walk 1)
    rw [List.length_cons, Run.observeLoop, beside.next rest, Run.observeItems]
    dsimp only
    rw [exec_bind, exec_bind, Run.exec_attempt, Run.exec_attempt, Run.failing?]
    rcases ran : exec (f x) s with ⟨o, s'⟩
    rcases ran' : exec (f x) (t.skip k.cursor 1) with ⟨o', t'⟩
    rw [ran, ran'] at after outcome
    cases outcome with
    | error apart =>
      refine ⟨after, .ok ⟨rfl, rfl, ?_⟩⟩
      rintro e ⟨⟩
      exact apart
    | @ok y y' carried =>
      have looks : y'.view t' = y.view s' := carried.view_eq after.toMirrors
      dsimp only
      rw [pulled_succ, ← Cursor.skip_skip, Run.exec_get_bind, Run.exec_get_bind, looks]
      exact ih after (rest_of_cons rest) below (y.view s' :: seen)

end Loops

/-- The traversal of a value with the items `xs` has begun: the cursor `c` is about to walk them. -/
structure Begins (k : Traversal) (v : Value) (c : Cursor) (xs : List Value) (s t : Store) : Prop where
  beside : k.Beside c s t
  entered : exec (Run.cursorOf v) s = (.ok k.cursor, t)
  old_eq : k.old = s.cursors.size
  rest : c.rest = xs
  below : ∀ x ∈ xs, x.Below k.cursor

/-- The second computation ends like the first one, with the traversal at the cursor `c`. -/
structure Closes (k : Traversal) (c : Cursor) (rel : α → α → Prop) (p q : Except Error α × Store) : Prop where
  outcome : k.Matches rel p.1 q.1
  mirrors : k.Mirrors p.2 q.2
  here : q.2.cursor k.cursor = c

theorem Beside.closes {rel : α → α → Prop} {x y : Except Error α} (beside : k.Beside c s t)
    (outcome : k.Matches rel x y) : k.Closes c rel (x, s) (y, t) :=
  ⟨outcome, beside.toMirrors, beside.here⟩

theorem Mirrored.closes {rel : α → α → Prop} {m m' : Run α} (mirrored : k.Mirrored rel m m')
    (beside : k.Beside c s t) : k.Closes c rel (exec m s) (exec m' t) :=
  (mirrored c beside).1.closes (mirrored c beside).2

namespace Begins

variable {rel : β → β → Prop} {f : β → Value → Run β} {b b' : β}

theorem remaining_eq (begins : k.Begins v c xs s t) : (t.cursor k.cursor).remaining = xs.length := by
  rw [begins.beside.here, ← Cursor.length_rest, begins.rest]

theorem exec_itemsOf (begins : k.Begins v c xs s t) :
    exec (Run.itemsOf v) s = (.ok xs, t.skip k.cursor xs.length) := by
  rw [Run.itemsOf, exec_bind, begins.entered]
  dsimp only
  rw [Run.exec_drain, begins.remaining_eq, begins.beside.here, begins.rest]

end Begins
end Traversal

/-- Numbers have a sum, which is a number; nothing else has one. -/
theorem Value.add_cases (a b : Value) :
    ((a.number?.isNone || b.number?.isNone) = true ∧ a.add b = .error (.notAddable a.kind b.kind)) ∨
      ((a.number?.isNone || b.number?.isNone) = false ∧
        ∃ sum, a.add b = .ok sum ∧ sum.number?.isNone = false) := by
  unfold add
  split
  · next m n first second =>
    rw [first, second]
    refine .inr ⟨rfl, ?_⟩
    split <;> exact ⟨_, rfl, rfl⟩
  · next x y first second =>
    rw [first, second]
    exact .inr ⟨rfl, _, rfl, rfl⟩
  · next missing =>
    refine .inl ⟨?_, rfl⟩
    cases first : a.number? with
    | none => rfl
    | some x =>
      cases second : b.number? with
      | none => rfl
      | some y => exact absurd second (missing x y first)

section Stops

variable (xs : List Value) (s : Store)

end Stops

end DynamicValues
