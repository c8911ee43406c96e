import DynamicValues.Proofs.Cursors

/-!
Values with other names for their iterators. Two runs of one computation may number the cursors that they
make differently; their results then are the same up to such names. A renamed value looks the same and reads
the same, provided that the cursors under the new names are where those under the old names were.
-/

set_option autoImplicit false

namespace DynamicValues

namespace Value

section Rename

variable (ρ : Nat → Nat)

mutual

/-- The value with its iterators renamed, at every depth. -/
def rename : Value → Value
  | .tuple i xs => .tuple i (renameItems xs)
  | .list xs => .list (renameItems xs)
  | .dict ⟨es⟩ => .dict ⟨renameEntries es⟩
  | .iter i => .iter (ρ i)
  | v => v

def renameItems : List Value → List Value
  | [] => []
  | x :: xs => rename x :: renameItems xs

def renameEntries : List (Entry Value) → List (Entry Value)
  | [] => []
  | ⟨hash, key, value⟩ :: es => ⟨hash, rename key, rename value⟩ :: renameEntries es

end

theorem renameItems_eq_map (xs : List Value) : renameItems ρ xs = xs.map (rename ρ) := by
  induction xs with
  | nil => rfl
  | cons x xs ih => rw [renameItems, ih, List.map_cons]

theorem renameEntries_eq_map (es : List (Entry Value)) :
    renameEntries ρ es = es.map fun e => ⟨e.hash, e.key.rename ρ, e.value.rename ρ⟩ := by
  induction es with
  | nil => rfl
  | cons e es ih => rw [renameEntries, ih, List.map_cons]

end Rename

variable {ρ : Nat → Nat} {v : Value}

theorem map_rename_eq_self {xs : List Value} (fixed : ∀ x ∈ xs, x.rename ρ = x) :
    xs.map (rename ρ) = xs := by
  rw [List.map_congr_left fixed, List.map_id']

/-- A value all of whose iterators keep their names stays as it is. -/
theorem rename_eq_self (fixed : ∀ j, Within parts (iter j) v → ρ j = j) : v.rename ρ = v := by
  induction v using induction_on_parts with
  | step v ih =>
    have parts_eq (x : Value) (mem : x ∈ v.parts) : x.rename ρ = x :=
      ih x mem fun j inner => fixed j (.deeper mem inner)
    cases v with
    | tuple i xs => exact congrArg (tuple i) ((renameItems_eq_map ρ xs).trans (map_rename_eq_self parts_eq))
    | list xs => exact congrArg list ((renameItems_eq_map ρ xs).trans (map_rename_eq_self parts_eq))
    | dict d =>
      have entry_eq (e : Entry Value) (he : e ∈ d.entries) :
          (⟨e.hash, e.key.rename ρ, e.value.rename ρ⟩ : Entry Value) = e := by
        rw [parts_eq e.key (key_mem_parts he), parts_eq e.value (value_mem_parts he)]
      rw [rename, renameEntries_eq_map, List.map_congr_left entry_eq, List.map_id']
    | iter j => rw [rename, fixed j .here]
    | _ => rfl

theorem rename_id (v : Value) : v.rename id = v := rename_eq_self fun _ _ => rfl

end Value

/-- The cursor with its items renamed. -/
def Cursor.rename (ρ : Nat → Nat) (c : Cursor) : Cursor := ⟨c.items.map (Value.rename ρ), c.position⟩

namespace Cursor

variable {ρ : Nat → Nat} {c : Cursor}

@[simp] theorem position_rename : (c.rename ρ).position = c.position := rfl

@[simp] theorem total_rename : (c.rename ρ).total = c.total := by simp [rename, total]

@[simp] theorem rename_start (items : List Value) :
    (start items).rename ρ = start (items.map (Value.rename ρ)) := by
  simp [rename, start]

theorem rename_eq_self (fixed : ∀ x ∈ c.items, x.rename ρ = x) : c.rename ρ = c := by
  have items : c.items.map (Value.rename ρ) = c.items := by
    rw [Array.map_congr_left fixed, Array.map_id']
  rw [rename, items]

end Cursor

namespace Value

variable {ρ : Nat → Nat} {v : Value} {s t : Store}

theorem view_rename (h : ∀ j, Within parts (iter j) v → t.cursor (ρ j) = (s.cursor j).rename ρ) :
    (v.rename ρ).view t = v.view s := by
  induction v using induction_on_parts with
  | step v ih =>
    have parts_eq (x : Value) (mem : x ∈ v.parts) : (x.rename ρ).view t = x.view s :=
      ih x mem fun j inner => h j (.deeper mem inner)
    cases v with
    | tuple i xs =>
      rw [rename, view, view, renameItems_eq_map, viewItems_eq_map, viewItems_eq_map, List.map_map]
      exact congrArg View.tuple (List.map_congr_left parts_eq)
    | list xs =>
      rw [rename, view, view, renameItems_eq_map, viewItems_eq_map, viewItems_eq_map, List.map_map]
      exact congrArg View.list (List.map_congr_left parts_eq)
    | dict d =>
      rw [rename, view, view, renameEntries_eq_map, viewEntries_eq_map, viewEntries_eq_map, List.map_map]
      refine congrArg View.dict (List.map_congr_left fun e he => ?_)
      exact Prod.ext (parts_eq e.key (key_mem_parts he)) (parts_eq e.value (value_mem_parts he))
    | iter j => rw [rename, view, view, h j .here, Cursor.position_rename, Cursor.total_rename]
    | _ => rfl

end Value

namespace Error

/-- The values that the error names. -/
def values : Error → List Value
  | .missingKey key => [key]
  | _ => []

/-- The error with the iterators of its values renamed. -/
def rename (ρ : Nat → Nat) : Error → Error
  | .missingKey key => .missingKey (key.rename ρ)
  | e => e

variable {ρ : Nat → Nat} {e : Error} {s t : Store}

theorem rename_eq_self (fixed : ∀ v ∈ e.values, v.rename ρ = v) : e.rename ρ = e := by
  cases e with
  | missingKey key => exact congrArg missingKey (fixed key (by simp [values]))
  | _ => rfl

end Error
end DynamicValues
