import DynamicValues.Dict
import DynamicValues.Proofs.Parts
import DynamicValues.Store
import Mathlib.Data.List.Infix

/-!
What tuples and iterators refer to. A world lists the items of every tuple storage and of every cursor
that were ever made; later worlds only add to it. A value is sound in a world if its tuples hold the items
of their storage, its iterators have a cursor, and its dicts are proper, at every depth.
-/

set_option autoImplicit false

namespace DynamicValues

structure World where
  storages : List (List Value)
  cursors : List (Array Value)

namespace World

def empty : World := ⟨[], []⟩

structure Extends (w later : World) : Prop where
  storages : w.storages <+: later.storages
  cursors : w.cursors <+: later.cursors

theorem Extends.refl (w : World) : w.Extends w := ⟨List.prefix_rfl, List.prefix_rfl⟩

theorem Extends.trans {w₁ w₂ w₃ : World} (h₁ : w₁.Extends w₂) (h₂ : w₂.Extends w₃) : w₁.Extends w₃ :=
  ⟨h₁.storages.trans h₂.storages, h₁.cursors.trans h₂.cursors⟩

/-- The world with one more storage. -/
def addStorage (w : World) (items : List Value) : World := ⟨w.storages ++ [items], w.cursors⟩

/-- The world with one more cursor. -/
def addCursor (w : World) (items : List Value) : World := ⟨w.storages, w.cursors ++ [items.toArray]⟩

theorem extends_addStorage (w : World) (items : List Value) : w.Extends (w.addStorage items) :=
  ⟨List.prefix_append _ _, List.prefix_rfl⟩

theorem extends_addCursor (w : World) (items : List Value) : w.Extends (w.addCursor items) :=
  ⟨List.prefix_rfl, List.prefix_append _ _⟩

end World

namespace Entry

/-- The key of an entry, as one that can be looked for. -/
def asKey (e : Entry Value) : Key := ⟨e.hash, e.key⟩

/-- No entry is found by the key of an earlier one. -/
abbrev Distinct (es : List (Entry Value)) : Prop := es.Pairwise fun e f => ¬e.asKey.finds f

end Entry

namespace Dict

/-- The keys are distinct, and the hashes are theirs. -/
structure Proper (d : Dict Value) : Prop where
  distinct : Entry.Distinct d.entries
  hashed : ∀ e ∈ d.entries, e.key.hash = .ok e.hash

end Dict

namespace Value

/-- Soundness of a value itself, whatever is inside. -/
def Fits (w : World) : Value → Prop
  | .tuple i xs => w.storages[i]? = some xs
  | .dict d => d.Proper
  | .iter i => i < w.cursors.length
  | _ => True

def Sound (w : World) (v : Value) : Prop := ∀ x, Within parts x v → x.Fits w

namespace Sound

variable {w : World} {v : Value}

theorem fits (h : v.Sound w) : v.Fits w := h v .here

theorem part (h : v.Sound w) {x : Value} (mem : x ∈ v.parts) : x.Sound w :=
  fun y hy => h y (.deeper mem hy)

theorem of_parts (fits : v.Fits w) (parts : ∀ x ∈ v.parts, x.Sound w) : v.Sound w := by
  intro x hx
  cases hx with
  | here => exact fits
  | deeper mem inner => exact parts _ mem x inner

/-- Nothing depends on the world in a value without parts that is no iterator. -/
theorem of_scalar (fits : v.Fits w) (scalar : v.parts = []) : v.Sound w :=
  of_parts fits (by simp [scalar])

theorem within (h : v.Sound w) {x : Value} (inner : Within Value.parts x v) : x.Sound w :=
  fun y hy => h y (hy.trans inner)

end Sound

theorem Fits.mono {w later : World} {v : Value} (h : v.Fits w) (grows : w.Extends later) : v.Fits later := by
  cases v with
  | tuple i xs =>
    obtain ⟨more, storages⟩ := grows.storages
    have bound : i < w.storages.length := (List.getElem?_eq_some_iff.1 h).1
    rw [Fits, ← storages, List.getElem?_append_left bound]
    exact h
  | iter i => exact Nat.lt_of_lt_of_le h grows.cursors.length_le
  | _ => exact h

theorem Sound.mono {w later : World} {v : Value} (h : v.Sound w) (grows : w.Extends later) : v.Sound later :=
  fun x hx => (h x hx).mono grows

/-- Two tuples on one storage hold the same items. -/
theorem items_eq_of_storage_eq {w : World} {i : Nat} {xs ys : List Value} (hx : (tuple i xs).Sound w)
    (hy : (tuple i ys).Sound w) : xs = ys :=
  Option.some.inj (hx.fits.symm.trans hy.fits)

end Value

/-- The iterators of a value, at every depth, are among the first `n`. -/
def Value.Below (n : Nat) (v : Value) : Prop := ∀ j, Within parts (iter j) v → j < n

theorem Value.Below.mono {m n : Nat} {v : Value} (h : v.Below m) (le : m ≤ n) : v.Below n :=
  fun j inner => Nat.lt_of_lt_of_le (h j inner) le

theorem Value.Sound.below {w : World} {v : Value} (h : v.Sound w) : v.Below w.cursors.length :=
  fun _ inner => h _ inner

/-- The items of a cursor were there before it, so that no cursor is inside its own items. -/
def World.Grounded (w : World) : Prop :=
  ∀ (i : Nat) (items : Array Value), w.cursors[i]? = some items → ∀ x ∈ items, x.Below i

/-- All of several values are sound. -/
def Items.Sound (w : World) (xs : List Value) : Prop := ∀ x ∈ xs, x.Sound w

namespace Items.Sound

variable {w : World} {xs ys : List Value} {v : Value}

theorem nil : Items.Sound w [] := by simp [Items.Sound]

theorem cons (hv : v.Sound w) (h : Items.Sound w xs) : Items.Sound w (v :: xs) :=
  List.forall_mem_cons.2 ⟨hv, h⟩

theorem append (hx : Items.Sound w xs) (hy : Items.Sound w ys) : Items.Sound w (xs ++ ys) :=
  List.forall_mem_append.2 ⟨hx, hy⟩

theorem subset (h : Items.Sound w xs) (sub : ys ⊆ xs) : Items.Sound w ys := fun x hx => h x (sub hx)

end Items.Sound

theorem Value.sound_list {w : World} {xs : List Value} (h : Items.Sound w xs) : (list xs).Sound w :=
  .of_parts trivial h

theorem Value.sound_str (w : World) (t : Text) : (str t).Sound w := .of_scalar trivial rfl

theorem Value.sound_int (w : World) (n : Int64) : (int n).Sound w := .of_scalar trivial rfl

theorem World.Grounded.addCursor {w : World} (h : w.Grounded) {items : List Value} (hi : Items.Sound w items) :
    (w.addCursor items).Grounded := by
  intro i added found x hx
  rcases Nat.lt_trichotomy i w.cursors.length with old | rfl | missing
  · rw [World.addCursor, List.getElem?_append_left old] at found
    exact h i added found x hx
  · obtain rfl : items.toArray = added := by simpa [World.addCursor] using found
    exact (hi x (by simpa using hx)).below
  · rw [World.addCursor, List.getElem?_eq_none (by simp; omega)] at found
    cases found

namespace Store

structure Sound (w : World) (s : Store) : Prop where
  storages : s.storages = w.storages.length
  cursors : s.cursors.toList.map Cursor.items = w.cursors
  position_le : ∀ c ∈ s.cursors, c.position ≤ c.total
  items : ∀ c ∈ s.cursors, ∀ x ∈ c.items, x.Sound w
  grounded : w.Grounded

theorem Sound.size_eq {w : World} {s : Store} (h : s.Sound w) : s.cursors.size = w.cursors.length := by
  simp [← h.cursors]

end Store
end DynamicValues
