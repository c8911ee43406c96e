import DynamicValues.Error

/-!
Everything that calls share: the cursors of all iterators, and the number of tuple storages handed out.
A cursor walks a list of items that was fixed when the cursor was made.
-/

set_option autoImplicit false

namespace DynamicValues

structure Cursor where
  items : Array Value
  position : Nat

namespace Cursor

def start (items : List Value) : Cursor := ⟨items.toArray, 0⟩

def total (c : Cursor) : Nat := c.items.size

def remaining (c : Cursor) : Nat := c.total - c.position

/-- The items still to come. -/
def rest (c : Cursor) : List Value := c.items.toList.drop c.position

/-- The next item and the cursor past it. -/
def next? (c : Cursor) : Option (Value × Cursor) :=
  c.items[c.position]?.map fun x => (x, ⟨c.items, c.position + 1⟩)

@[simp] theorem rest_start (items : List Value) : (start items).rest = items := rfl

@[simp] theorem length_rest (c : Cursor) : c.rest.length = c.remaining := by
  simp [rest, remaining, total]

theorem next?_of_rest_nil {c : Cursor} (h : c.rest = []) : c.next? = none := by
  simpa [next?, rest] using h

theorem next?_of_rest_cons {c : Cursor} {x : Value} {xs : List Value} (h : c.rest = x :: xs) :
    c.next? = some (x, ⟨c.items, c.position + 1⟩) := by
  have head : c.items[c.position]? = some x := by
    rw [← Array.getElem?_toList, ← List.head?_drop, ← rest, h, List.head?_cons]
  simp [next?, head]

end Cursor

structure Store where
  cursors : Array Cursor
  storages : Nat

namespace Store

def empty : Store := ⟨#[], 0⟩

/-- The cursor of an iterator; one that was never made has no items. -/
def cursor (s : Store) (i : Nat) : Cursor := s.cursors.getD i (.start [])

def addCursor (s : Store) (items : List Value) : Nat × Store :=
  (s.cursors.size, ⟨s.cursors.push (.start items), s.storages⟩)

def addStorage (s : Store) : Nat × Store := (s.storages, ⟨s.cursors, s.storages + 1⟩)

/-- The next item of a cursor, which moves past it; an exhausted cursor stays. -/
def advance (s : Store) (i : Nat) : Option Value × Store :=
  match (s.cursor i).next? with
  | none => (none, s)
  | some (x, c) => (some x, ⟨s.cursors.setIfInBounds i c, s.storages⟩)

@[simp] theorem cursor_addCursor (s : Store) (items : List Value) :
    (s.addCursor items).2.cursor (s.addCursor items).1 = .start items := by
  simp [cursor, addCursor]

theorem cursor_addCursor_of_lt {s : Store} {items : List Value} {i : Nat} (h : i < s.cursors.size) :
    (s.addCursor items).2.cursor i = s.cursor i := by
  simp [cursor, addCursor, Array.getElem?_push_lt h, h]

theorem advance_of_rest_nil {s : Store} {i : Nat} (h : (s.cursor i).rest = []) :
    s.advance i = (none, s) := by
  simp [advance, Cursor.next?_of_rest_nil h]

theorem cursor_advance_of_ne {s : Store} {i j : Nat} (h : i ≠ j) :
    (s.advance i).2.cursor j = s.cursor j := by
  unfold advance
  split
  · rfl
  · simp [cursor, Array.getElem?_setIfInBounds_ne h]

@[simp] theorem cursor_addStorage (s : Store) (i : Nat) : s.addStorage.2.cursor i = s.cursor i := rfl

end Store
end DynamicValues
