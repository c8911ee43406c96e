import DynamicValues.Proofs.Agreement
import DynamicValues.Proofs.Hashing
import DynamicValues.Proofs.Session

/-!
How equality, order and hashes of the values of a session fit together. Equal values have the same hash and
stand in the same place of the order; equality is symmetric and transitive, and only a NaN that a copy does
not share keeps a value from being equal to itself.
-/

set_option autoImplicit false

namespace DynamicValues

namespace Sample

/-- The call that gives a written value a name. -/
def name (target : String) (l : Literal) : Call := ⟨.query .identity [l], some target⟩

/-- Tuples of equal numbers, a list of a NaN, and a list of a tuple of one. -/
def program : List Call :=
  [name "words" (.tuple [.int 0, .bool true]), name "doubles" (.tuple [.float ⟨0x8000000000000000⟩, .int 1]),
    name "bare" (.list [.float .invalid]), name "shared" (.list [.tuple [.float .invalid]])]

def session : Session := (Session.empty.run [] program).2

def words : Value := .tuple 0 [.int 0, .bool true]
def doubles : Value := .tuple 1 [.float ⟨0x8000000000000000⟩, .int 1]
def bare : Value := .list [.float .invalid]
def shared : Value := .list [.tuple 2 [.float .invalid]]

theorem vars_session :
    session.vars = [("shared", shared), ("bare", bare), ("doubles", doubles), ("words", words)] := rfl

theorem reachable_session : session.Reachable := ⟨[], program, rfl⟩

theorem holds_words : session.Holds words := .of_var "words" (by simp [vars_session])

theorem holds_doubles : session.Holds doubles := .of_var "doubles" (by simp [vars_session])

theorem holds_bare : session.Holds bare := .of_var "bare" (by simp [vars_session])

theorem holds_shared : session.Holds shared := .of_var "shared" (by simp [vars_session])

theorem words_beq_doubles : (words == doubles) = true := by decide +kernel

end Sample

/-- Equal values of a session have the same hash, or lack one for the same reason; no hash is minus one. -/
theorem hash_respects_equality :
    (∀ s : Session, s.Reachable → ∀ a b : Value, s.Holds a → s.Holds b → (a == b) = true →
      (∃ n, a.hash = .ok n ∧ b.hash = .ok n) ∨
        ∃ kind, a.hash = .error (.unhashable kind) ∧ b.hash = .error (.unhashable kind)) ∧
    ∀ v : Value, v.hash ≠ .ok (-1) := by
  refine ⟨?_, Value.hash_ne⟩
  intro s reachable a b ha hb equal
  obtain ⟨w, hs⟩ := reachable.exists_sound
  have hashes := Value.hash_eq_of_beq (hs.of_holds ha) (hs.of_holds hb) equal
  rcases a.hash_cases with ⟨n, ok⟩ | ⟨kind, failed⟩
  · exact .inl ⟨n, ok, hashes ▸ ok⟩
  · exact .inr ⟨kind, failed, hashes ▸ failed⟩

theorem hash_words_eq_hash_doubles :
    (Sample.words == Sample.doubles) = true ∧
      ((∃ n, Sample.words.hash = .ok n ∧ Sample.doubles.hash = .ok n) ∨
        ∃ kind, Sample.words.hash = .error (.unhashable kind) ∧
          Sample.doubles.hash = .error (.unhashable kind)) ∧
      Sample.words.hash ≠ .ok (-1) := by
  refine ⟨Sample.words_beq_doubles, ?_, hash_respects_equality.2 _⟩
  exact hash_respects_equality.1 _ Sample.reachable_session _ _ Sample.holds_words Sample.holds_doubles
    Sample.words_beq_doubles

/-- The order is total and transitive. It puts equal values in one place, and apart from NaNs, dicts, slices
and iterators no others; one of the two being free of those is enough. -/
theorem cmp_total_preorder :
    (∀ a : Value, a.cmp a = .eq) ∧
    (∀ a b : Value, b.cmp a = (a.cmp b).swap) ∧
    (∀ a b c : Value, a.cmp b ≠ .gt → b.cmp c ≠ .gt → a.cmp c ≠ .gt) ∧
    (∀ s : Session, s.Reachable → ∀ a b : Value, s.Holds a → s.Holds b → (a == b) = true →
      a.cmp b = .eq) ∧
    ∀ a b : Value, a.Definite → a.cmp b = .eq → (a == b) = true := by
  refine ⟨Value.cmp_self, Value.cmp_swap, ?_, ?_, fun a b => Value.beq_of_cmp_eq⟩
  · intro a b c hab hbc
    have hab := Ordering.ne_gt_iff_isLE.1 hab
    have hbc := Ordering.ne_gt_iff_isLE.1 hbc
    exact Ordering.ne_gt_iff_isLE.2 (Std.TransCmp.isLE_trans hab hbc)
  · intro s reachable a b ha hb equal
    obtain ⟨w, hs⟩ := reachable.exists_sound
    exact Value.cmp_eq_of_beq (hs.of_holds ha) (hs.of_holds hb) equal

theorem words_cmp_doubles :
    Sample.words.Definite ∧ Sample.words.cmp Sample.doubles = .eq ∧
      (Sample.words == Sample.doubles) = true ∧ Sample.words.cmp Sample.bare ≠ .gt := by
  obtain ⟨-, -, trans, agrees, definite⟩ := cmp_total_preorder
  have words : Sample.words.Definite := by
    refine .of_parts id ?_
    simp only [Sample.words, Value.parts, List.forall_mem_cons, List.not_mem_nil]
    exact ⟨.of_parts id (by simp [Value.parts]), .of_parts id (by simp [Value.parts]), by simp⟩
  have place := agrees _ Sample.reachable_session _ _ Sample.holds_words Sample.holds_doubles
    Sample.words_beq_doubles
  refine ⟨words, place, definite _ _ words place, ?_⟩
  exact trans _ Sample.doubles _ (by decide +kernel) (by decide +kernel)

/-- Equality is a partial equivalence. A copy of a value has the storages and the cursors of the value, so it
is the value itself; it is equal to the value unless they hold a NaN that is reached without going through a
tuple or an iterator. -/
theorem beq_partial_equivalence {s : Session} (reachable : s.Reachable) {a b c : Value} (ha : s.Holds a)
    (hb : s.Holds b) (hc : s.Holds c) :
    ((a == b) = true → (b == a) = true) ∧
    ((a == b) = true → (b == c) = true → (a == c) = true) ∧
    ((a == a) = true ↔ ¬∃ x : Binary64, Value.Within Value.copiedParts (.float x) a ∧ x.isNaN = true) := by
  obtain ⟨w, hs⟩ := reachable.exists_sound
  have tame := Value.tame_sound w
  have ha := hs.of_holds ha
  have hb := hs.of_holds hb
  have hc := hs.of_holds hc
  exact ⟨tame.symm a b ha hb, tame.trans a b c ha hb hc, Value.beq_self_iff ha⟩

theorem beq_of_sample :
    (Sample.doubles == Sample.words) = true ∧ (Sample.words == Sample.words) = true ∧
      ¬(Sample.bare == Sample.bare) = true ∧ (Sample.shared == Sample.shared) = true ∧
      ¬∃ x : Binary64, Value.Within Value.copiedParts (.float x) Sample.shared ∧ x.isNaN = true := by
  obtain ⟨symm, trans, -⟩ := beq_partial_equivalence Sample.reachable_session Sample.holds_words
    Sample.holds_doubles Sample.holds_words
  obtain ⟨-, -, bare⟩ := beq_partial_equivalence Sample.reachable_session Sample.holds_bare
    Sample.holds_bare Sample.holds_bare
  obtain ⟨-, -, shared⟩ := beq_partial_equivalence Sample.reachable_session Sample.holds_shared
    Sample.holds_shared Sample.holds_shared
  have back := symm Sample.words_beq_doubles
  have same : (Sample.shared == Sample.shared) = true := by decide
  refine ⟨back, trans Sample.words_beq_doubles back, ?_, same, shared.1 same⟩
  rw [bare, not_not]
  exact ⟨.invalid, .deeper (by simp [Sample.bare, Value.copiedParts, Value.parts]) .here, by decide +kernel⟩

end DynamicValues
