import DynamicValues.Proofs.Contracts
import Mathlib.Data.List.Find

/-!
Equality without the shortcut for shared storage. Tuples on one storage hold the same items, so the shortcut
answers what a comparison of the items would answer, unless a NaN among them keeps the items from being
equal to themselves.
-/

set_option autoImplicit false

namespace DynamicValues

namespace Value

mutual

/-- Equality that always looks at the items of tuples, at every depth. -/
def deepBeq (a b : Value) : Bool :=
  match a with
  | .none => match b with
    | .none => true
    | _ => false
  | .str s => match b with
    | .str t => s == t
    | _ => false
  | .tuple _ xs => match b with
    | .tuple _ ys => deepItems xs ys
    | _ => false
  | .list xs => match b with
    | .list ys => deepItems xs ys
    | _ => false
  | .dict ⟨es⟩ => match b with
    | .dict ⟨fs⟩ => es.length == fs.length && deepEntries es fs
    | _ => false
  | .slice s => match b with
    | .slice t => s == t
    | _ => false
  | .iter i => match b with
    | .iter j => i == j
    | _ => false
  | .bool x => sameNumber (.bool x) b
  | .int n => sameNumber (.int n) b
  | .float x => sameNumber (.float x) b

def deepItems : List Value → List Value → Bool
  | [], [] => true
  | x :: xs, y :: ys => deepBeq x y && deepItems xs ys
  | _, _ => false

def deepEntries : List (Entry Value) → List (Entry Value) → Bool
  | [], _ => true
  | ⟨hash, key, value⟩ :: es, fs =>
    (match fs.find? fun f => hash == f.hash && deepBeq key f.key with
      | some f => deepBeq value f.value
      | Option.none => false) && deepEntries es fs

end

/-- Whether a NaN is inside, at any depth. -/
def HoldsNaN (v : Value) : Prop := ∃ x : Binary64, Within parts (.float x) v ∧ x.isNaN = true

theorem HoldsNaN.of_part {v x : Value} (mem : x ∈ v.parts) (h : x.HoldsNaN) : v.HoldsNaN := by
  obtain ⟨y, inner, nan⟩ := h
  exact ⟨y, .deeper mem inner, nan⟩

theorem not_holdsNaN_of_parts {v : Value} (own : v.kind ≠ .float) (parts : ∀ x ∈ v.parts, ¬x.HoldsNaN) :
    ¬v.HoldsNaN := by
  rintro ⟨y, inner, nan⟩
  cases inner with
  | here => exact own rfl
  | deeper mem rest => exact parts _ mem ⟨y, rest, nan⟩

theorem CopiesNaN.holdsNaN {v : Value} (h : v.CopiesNaN) : v.HoldsNaN := by
  obtain ⟨y, inner, nan⟩ := h
  refine ⟨y, ?_, nan⟩
  induction inner with
  | here => exact .here
  | @deeper u part mem _ ih =>
    have sub : part ∈ u.parts := by
      cases u with
      | tuple i xs => cases mem
      | _ => exact mem
    exact .deeper sub ih

theorem deepItems_eq {xs ys : List Value} (agree : ∀ x ∈ xs, ∀ y ∈ ys, (x == y) = x.deepBeq y) :
    beqItems xs ys = deepItems xs ys := by
  induction xs generalizing ys with
  | nil => cases ys <;> rfl
  | cons x xs ih =>
    cases ys with
    | nil => rfl
    | cons y ys =>
      have head : x.beq y = x.deepBeq y := agree x (by simp) y (by simp)
      have tail : beqItems xs ys = deepItems xs ys := by
        apply ih
        intro x' hx y' hy
        exact agree x' (by simp [hx]) y' (by simp [hy])
      rw [beqItems, deepItems, head, tail]

theorem deepEntries_eq {es fs : List (Entry Value)}
    (keys : ∀ e ∈ es, ∀ f ∈ fs, (e.key == f.key) = e.key.deepBeq f.key)
    (values : ∀ e ∈ es, ∀ f ∈ fs, (e.value == f.value) = e.value.deepBeq f.value) :
    beqEntries es fs = deepEntries es fs := by
  induction es with
  | nil => rfl
  | cons e es ih =>
    obtain ⟨hash, key, value⟩ := e
    rw [List.forall_mem_cons] at keys values
    have lookup : (fs.find? fun f => hash == f.hash && beq key f.key) =
        fs.find? fun f => hash == f.hash && deepBeq key f.key := by
      apply List.find?_congr
      intro f hf
      exact congrArg (hash == f.hash && ·) (keys.1 f hf)
    rw [beqEntries, deepEntries, ih keys.2 values.2, lookup]
    cases found : fs.find? fun f => hash == f.hash && deepBeq key f.key with
    | none => rfl
    | some f => exact congrArg (· && deepEntries es fs) (values.1 f (List.mem_of_find?_eq_some found))

/-- The shortcut changes nothing for a value that holds no NaN. -/
theorem beq_eq_deepBeq {w : World} {a b : Value} (ha : a.Sound w) (hb : b.Sound w) (real : ¬a.HoldsNaN) :
    (a == b) = a.deepBeq b := by
  induction a using induction_on_parts generalizing b with
  | step a ih =>
    have part : ∀ x ∈ a.parts, ∀ y, y.Sound w → (x == y) = x.deepBeq y := by
      intro x hx y hy
      exact ih x hx (ha.part hx) hy fun nan => real (.of_part hx nan)
    cases a with
    | tuple i xs =>
      cases b with
      | tuple j ys =>
        have items : beqItems xs ys = deepItems xs ys :=
          deepItems_eq fun x hx y hy => part x hx y (hb.part hy)
        change (i == j || beqItems xs ys) = deepItems xs ys
        by_cases shared : i = j
        · subst shared
          obtain rfl := items_eq_of_storage_eq ha hb
          have self : beqItems xs xs = true := by
            rw [beqItems_iff, List.forall₂_same]
            intro x hx
            rw [beq_self_iff (ha.part hx)]
            exact fun copies => real (.of_part hx copies.holdsNaN)
          rw [beq_self_eq_true, Bool.true_or, ← items, self]
        · rw [beq_eq_false_iff_ne.2 shared, Bool.false_or, items]
      | _ => rfl
    | list xs =>
      cases b with
      | list ys => exact deepItems_eq fun x hx y hy => part x hx y (hb.part hy)
      | _ => rfl
    | dict d =>
      cases b with
      | dict d' =>
        have entries : beqEntries d.entries d'.entries = deepEntries d.entries d'.entries := by
          apply deepEntries_eq
          · intro e he f hf
            exact part _ (key_mem_parts he) _ (hb.part (key_mem_parts hf))
          · intro e he f hf
            exact part _ (value_mem_parts he) _ (hb.part (value_mem_parts hf))
        exact congrArg (d.entries.length == d'.entries.length && ·) entries
      | _ => rfl
    | _ => rfl

end Value

/-- In a session tuples on one storage hold the same items, and apart from NaNs the shortcut for them answers
what a comparison of all items answers. -/
theorem beq_iff_deepBeq_of_no_nan {s : Session} (reachable : s.Reachable) :
    (∀ (i : Nat) (xs ys : List Value), s.Holds (.tuple i xs) → s.Holds (.tuple i ys) → xs = ys) ∧
    ∀ a b : Value, s.Holds a → s.Holds b → ¬a.HoldsNaN → ((a == b) = true ↔ a.deepBeq b = true) := by
  obtain ⟨w, hs⟩ := reachable.exists_sound
  constructor
  · intro i xs ys hx hy
    exact Value.items_eq_of_storage_eq (hs.of_holds hx) (hs.of_holds hy)
  · intro a b ha hb real
    rw [Value.beq_eq_deepBeq (hs.of_holds ha) (hs.of_holds hb) real]

/-- The exception is real: a tuple with a NaN is equal to its copy by the shortcut only. -/
theorem words_deepBeq_words :
    ¬Sample.words.HoldsNaN ∧ Sample.words.deepBeq Sample.words = true ∧
      Sample.words.deepBeq Sample.doubles = true ∧
      (Sample.shared == Sample.shared) = true ∧ Sample.shared.deepBeq Sample.shared = false := by
  obtain ⟨-, agree⟩ := beq_iff_deepBeq_of_no_nan Sample.reachable_session
  have real : ¬Sample.words.HoldsNaN := by
    apply Value.not_holdsNaN_of_parts (by decide)
    simp only [Sample.words, Value.parts, List.forall_mem_cons, List.not_mem_nil]
    exact ⟨Value.not_holdsNaN_of_parts (by decide) (by simp [Value.parts]),
      Value.not_holdsNaN_of_parts (by decide) (by simp [Value.parts]), by simp⟩
  refine ⟨real, ?_, ?_, by decide, by decide +kernel⟩
  · exact (agree _ _ Sample.holds_words Sample.holds_words real).1 (by decide)
  · exact (agree _ _ Sample.holds_words Sample.holds_doubles real).1 Sample.words_beq_doubles

end DynamicValues
