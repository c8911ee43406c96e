import DynamicValues.Value.Basic

/-!
The values inside a value. A value is larger than its parts, which is what inductions over values rest on.
-/

set_option autoImplicit false

namespace DynamicValues.Value

/-- The items of a tuple or a list, and the keys and values of a dict. -/
def parts : Value → List Value
  | .tuple _ xs => xs
  | .list xs => xs
  | .dict d => d.entries.flatMap fun e => [e.key, e.value]
  | _ => []

/-- The parts that are copied with a value. Copies of a tuple share its items. -/
def copiedParts : Value → List Value
  | .tuple .. => []
  | v => v.parts

/-- The second value is the first one or holds it, at any depth, where `inside` says what a value holds
at once. -/
inductive Within (inside : Value → List Value) (x : Value) : Value → Prop
  | here : Within inside x x
  | deeper {v part : Value} : part ∈ inside v → Within inside x part → Within inside x v

theorem mem_parts_dict {d : Dict Value} {x : Value} :
    x ∈ (dict d).parts ↔ ∃ e ∈ d.entries, x = e.key ∨ x = e.value := by
  simp [parts]

theorem key_mem_parts {d : Dict Value} {e : Entry Value} (h : e ∈ d.entries) : e.key ∈ (dict d).parts :=
  mem_parts_dict.2 ⟨e, h, .inl rfl⟩

theorem value_mem_parts {d : Dict Value} {e : Entry Value} (h : e ∈ d.entries) :
    e.value ∈ (dict d).parts :=
  mem_parts_dict.2 ⟨e, h, .inr rfl⟩

theorem sizeOf_lt_of_mem_parts {v part : Value} (h : part ∈ v.parts) : sizeOf part < sizeOf v := by
  cases v with
  | tuple i xs =>
    have := List.sizeOf_lt_of_mem (show part ∈ xs from h)
    simp only [tuple.sizeOf_spec]
    omega
  | list xs =>
    have := List.sizeOf_lt_of_mem (show part ∈ xs from h)
    simp only [list.sizeOf_spec]
    omega
  | dict d =>
    obtain ⟨e, he, which⟩ := mem_parts_dict.1 h
    have entries := List.sizeOf_lt_of_mem he
    cases d
    cases e
    simp only [dict.sizeOf_spec, Dict.mk.sizeOf_spec, Entry.mk.sizeOf_spec] at *
    rcases which with rfl | rfl <;> omega
  | _ => cases h

/-- What holds of a value when it holds of all its parts holds of every value. -/
theorem induction_on_parts {P : Value → Prop} (step : ∀ v, (∀ part ∈ v.parts, P part) → P v) (v : Value) :
    P v :=
  step v fun part _ => induction_on_parts step part
termination_by sizeOf v
decreasing_by exact sizeOf_lt_of_mem_parts ‹_›

theorem Within.trans {inside : Value → List Value} {x y v : Value} (inner : Within inside x y)
    (outer : Within inside y v) : Within inside x v := by
  induction outer with
  | here => exact inner
  | deeper mem _ ih => exact .deeper mem ih

end DynamicValues.Value
