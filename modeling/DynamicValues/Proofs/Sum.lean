import DynamicValues.Proofs.Contents
import DynamicValues.Proofs.Traversal

/-!
Sums. The total is a word as long as it has met words only and has stayed one, and a double from then on: no addition
to a double gives a word again. Only an operand that is no number makes an addition fail, and then the items after it
are not taken.
-/

set_option autoImplicit false

namespace DynamicValues

namespace Word

/-- An integer between the least and the greatest word. -/
def Fits (n : Int) : Prop := Int64.minValue.toInt ≤ n ∧ n ≤ Int64.maxValue.toInt

theorem fits_toInt (w : Int64) : Fits w.toInt := ⟨w.minValue_le_toInt, w.toInt_le⟩

theorem fits_iff {n : Int} : Fits n ↔ -limit ≤ n ∧ n < limit := by
  have greatest : Int64.maxValue.toInt = limit - 1 := rfl
  rw [Fits, greatest, Int.le_sub_one_iff]
  rfl

theorem exists_add?_of_fits {a b : Int64} (h : Fits (a.toInt + b.toInt)) :
    ∃ w, add? a b = some w ∧ w.toInt = a.toInt + b.toInt := by
  cases sum : add? a b with
  | none =>
    have inside := fits_iff.1 h
    have outside := ofInt?_eq_none.1 sum
    omega
  | some w => exact ⟨w, rfl, toInt_of_add? sum⟩

/-- A word with words added to it, in integers without bounds. -/
def exactSum (first : Int64) (ws : List Int64) : Int := first.toInt + (ws.map Int64.toInt).sum

theorem exactSum_cons {first n w : Int64} (h : w.toInt = first.toInt + n.toInt) (ws : List Int64) :
    exactSum first (n :: ws) = exactSum w ws := by
  rw [exactSum, exactSum, List.map_cons, List.sum_cons, h, Int.add_assoc]

end Word

namespace Value

variable {a b start : Value} {m n : Int64} {xs : List Value}

theorem eq_float_of_word?_eq_none {x : Number} (number : a.number? = some x) (h : a.word? = Option.none) :
    ∃ y, a = float y ∧ x = .float y := by
  cases a with
  | float y =>
    cases number
    exact ⟨y, rfl, rfl⟩
  | bool _ | int _ => cases h
  | _ => cases number

theorem add_of_words (left : a.word? = some m) (right : b.word? = some n) :
    a.add b = .ok ((Word.add? m n).elim (float ((Binary64.ofInt m.toInt).add (.ofInt n.toInt))) int) := by
  rw [add, number?_of_word? left, number?_of_word? right]
  dsimp only
  cases Word.add? m n <;> rfl

/-- Two numbers that are not both words. -/
theorem add_of_float (left : a.number?.isSome) (right : b.number?.isSome)
    (inexact : a.word? = Option.none ∨ b.word? = Option.none) : ∃ z, a.add b = .ok (float z) := by
  obtain ⟨x, hx⟩ := Option.isSome_iff_exists.1 left
  obtain ⟨y, hy⟩ := Option.isSome_iff_exists.1 right
  refine ⟨x.toFloat.add y.toFloat, ?_⟩
  rw [add, hx, hy]
  rcases inexact with h | h
  · obtain ⟨z, -, rfl⟩ := eq_float_of_word?_eq_none hx h
    rfl
  · obtain ⟨z, -, rfl⟩ := eq_float_of_word?_eq_none hy h
    cases x <;> rfl

theorem add_of_not_number (h : a.number? = Option.none ∨ b.number? = Option.none) :
    a.add b = .error (.notAddable a.kind b.kind) := by
  rcases a.add_cases b with ⟨-, failed⟩ | ⟨numbers, -⟩
  · exact failed
  · rcases h with h | h <;> simp [h] at numbers

theorem exists_add_of_numbers (left : a.number?.isSome) (right : b.number?.isSome) :
    ∃ sum, a.add b = .ok sum ∧ sum.number?.isSome := by
  rcases a.add_cases b with ⟨missing, -⟩ | ⟨-, sum, added, number⟩
  · simp [← Option.not_isSome, left, right] at missing
  · exact ⟨sum, added, by simpa [← Option.not_isSome] using number⟩

/-- The running total: the items added to the start, one after the other. -/
def total (start : Value) (xs : List Value) : Except Error Value := xs.foldlM add start

theorem total_append (start : Value) (xs ys : List Value) :
    start.total (xs ++ ys) = start.total xs >>= fun sum => sum.total ys := List.foldlM_append

theorem total_cons_of_ok {x sum : Value} (h : start.add x = .ok sum) (xs : List Value) :
    start.total (x :: xs) = sum.total xs := by
  rw [total, List.foldlM_cons, h]
  rfl

/-- Numbers always have a total. -/
theorem exists_total_of_numbers (first : start.number?.isSome) (numbers : ∀ x ∈ xs, x.number?.isSome) :
    ∃ sum, start.total xs = .ok sum ∧ sum.number?.isSome := by
  induction xs generalizing start with
  | nil => exact ⟨start, rfl, first⟩
  | cons x xs ih =>
    obtain ⟨here, later⟩ := List.forall_mem_cons.1 numbers
    obtain ⟨sum, added, number⟩ := exists_add_of_numbers first here
    rw [total_cons_of_ok added]
    exact ih number later

/-- Whatever is added to a double, the total is one. -/
theorem eq_float_of_total_float {x : Binary64} {sum : Value} (h : (float x).total xs = .ok sum) :
    ∃ y, sum = float y := by
  induction xs generalizing x with
  | nil =>
    cases h
    exact ⟨x, rfl⟩
  | cons a xs ih =>
    cases number : a.number? with
    | none =>
      rw [total, List.foldlM_cons, add_of_not_number (.inr number)] at h
      cases h
    | some y =>
      obtain ⟨z, added⟩ := add_of_float (a := float x) rfl (Option.isSome_of_eq_some number) (.inl rfl)
      rw [total_cons_of_ok added] at h
      exact ih h

theorem exists_total_float (x : Binary64) (numbers : ∀ a ∈ xs, a.number?.isSome) :
    ∃ y, (float x).total xs = .ok (float y) := by
  have first : (float x).number?.isSome := rfl
  obtain ⟨sum, added, -⟩ := exists_total_of_numbers first numbers
  obtain ⟨y, rfl⟩ := eq_float_of_total_float added
  exact ⟨y, added⟩

/-- A double among the numbers makes the total one. -/
theorem exists_total_of_float {y : Binary64} (numbers : ∀ a ∈ start :: xs, a.number?.isSome)
    (mem : float y ∈ start :: xs) : ∃ z, start.total xs = .ok (float z) := by
  obtain ⟨first, others⟩ := List.forall_mem_cons.1 numbers
  rcases List.mem_cons.1 mem with rfl | mem
  · exact exists_total_float y others
  · obtain ⟨before, after, rfl⟩ := List.append_of_mem mem
    obtain ⟨front, back⟩ := List.forall_mem_append.1 others
    obtain ⟨sum, added, number⟩ := exists_total_of_numbers first front
    obtain ⟨z, inexact⟩ := add_of_float (b := float y) number rfl (.inr rfl)
    rw [total_append, added]
    change ∃ z, sum.total (float y :: after) = .ok (float z)
    rw [total_cons_of_ok inexact]
    exact exists_total_float z (List.forall_mem_cons.1 back).2

section Words

variable {first : Int64} {ws : List Int64}

theorem number?_isSome_of_words (given : xs.map word? = ws.map some) : ∀ x ∈ xs, x.number?.isSome := by
  intro x mem
  have mem' : x.word? ∈ ws.map some := given ▸ List.mem_map_of_mem mem
  obtain ⟨w, -, word⟩ := List.mem_map.1 mem'
  rw [number?_of_word? word.symm]
  rfl

/-- While all prefixes have words as their sums, the total is exact. -/
theorem exists_total_int (given : xs.map word? = ws.map some) (fits : ∀ k, Word.Fits (Word.exactSum m (ws.take k))) :
    ∃ w, (int m).total xs = .ok (int w) ∧ w.toInt = Word.exactSum m ws := by
  induction xs generalizing m ws with
  | nil =>
    obtain rfl := List.map_eq_nil_iff.1 given.symm
    exact ⟨m, rfl, by simp [Word.exactSum]⟩
  | cons x xs ih =>
    cases ws with
    | nil => cases given
    | cons n ws =>
      obtain ⟨word, given⟩ := List.cons.inj given
      have one := fits 1
      obtain ⟨w, sum, exact⟩ := Word.exists_add?_of_fits (a := m) (b := n) (by simpa [Word.exactSum] using one)
      have added : (int m).add x = .ok (int w) := by
        rw [add_of_words (m := m) rfl word, sum]
        rfl
      rw [total_cons_of_ok added, Word.exactSum_cons exact]
      refine ih given fun k => ?_
      rw [← Word.exactSum_cons exact]
      exact fits (k + 1)

/-- A prefix whose sum is no word turns the total into a double. -/
theorem exists_total_float_of_overflow (given : xs.map word? = ws.map some) {k : Nat}
    (out : ¬Word.Fits (Word.exactSum m (ws.take k))) : ∃ y, (int m).total xs = .ok (float y) := by
  induction xs generalizing m ws k with
  | nil =>
    obtain rfl := List.map_eq_nil_iff.1 given.symm
    refine absurd (Word.fits_toInt m) ?_
    simpa [Word.exactSum] using out
  | cons x xs ih =>
    cases ws with
    | nil => cases given
    | cons n ws =>
      obtain ⟨word, given⟩ := List.cons.inj given
      have added := add_of_words (a := int m) (m := m) rfl word
      cases k with
      | zero => exact absurd (Word.fits_toInt m) (by simpa [Word.exactSum] using out)
      | succ k =>
        cases sum : Word.add? m n with
        | none =>
          rw [sum] at added
          rw [total_cons_of_ok added]
          exact exists_total_float _ (number?_isSome_of_words given)
        | some w =>
          rw [sum] at added
          rw [total_cons_of_ok added]
          rw [List.take_succ_cons, Word.exactSum_cons (Word.toInt_of_add? sum)] at out
          exact ih given out

/-- A truth value counts as a word from the first addition on. -/
theorem total_of_word (word : start.word? = some first) (given : xs.map word? = ws.map some) (present : xs ≠ []) :
    start.total xs = (int first).total xs := by
  cases xs with
  | nil => exact absurd rfl present
  | cons x xs =>
    cases ws with
    | nil => cases given
    | cons n ws =>
      have word' := (List.cons.inj given).1
      rw [total_cons_of_ok (add_of_words word word'), total_cons_of_ok (add_of_words (m := first) rfl word')]

end Words
end Value

namespace Run

variable {β : Type} {g : β → Value → Except Error β} {i : Nat} {s : Store} {xs ys : List Value} {b c : β}

/-- Rounds that succeed take their items and go on from the result. -/
theorem exec_foldLoop_append (rest : (s.cursor i).rest = xs ++ ys) (done : xs.foldlM g b = .ok c) (rounds : Nat) :
    exec (foldLoop i (fun b x => g b x) (xs.length + rounds) b) s =
      exec (foldLoop i (fun b x => g b x) rounds c) (s.skip i xs.length) := by
  induction xs generalizing s b with
  | nil =>
    cases done
    rw [List.length_nil, Nat.zero_add, Store.skip_zero]
  | cons x xs ih =>
    have later : ((s.skip i 1).cursor i).rest = xs ++ ys := by simp [rest]
    rw [List.foldlM_cons] at done
    cases step : g b x with
    | error e =>
      rw [step] at done
      cases done
    | ok b' =>
      rw [step] at done
      have rounds_eq : (x :: xs).length + rounds = xs.length + rounds + 1 := by
        rw [List.length_cons]
        omega
      rw [rounds_eq, foldLoop, exec_next_bind, Store.advance_of_rest_cons rest]
      dsimp only
      rw [step]
      exact (ih later done).trans (by rw [Store.skip_skip, List.length_cons, Nat.add_comm 1])

end Run

section Exec

variable {v start sum : Value} {s t : Store} {xs before after : List Value} {i : Nat}

theorem Enters.exec_sum_eq (h : Enters v s xs i t) (start : Value) :
    exec (Run.sum v start) s = exec (Run.foldLoop i (fun total x => total.add x) xs.length start) t := by
  rw [Run.sum, exec_bind, h.found]
  dsimp only
  rw [← h.rest, Cursor.length_rest]
  rfl

theorem Enters.exec_sum_of_ok (h : Enters v s xs i t) (done : start.total xs = .ok sum) :
    exec (Run.sum v start) s = (.ok sum, t.skip i xs.length) := by
  have rest : (t.cursor i).rest = xs ++ [] := by rw [h.rest, List.append_nil]
  exact (h.exec_sum_eq start).trans (Run.exec_foldLoop_append rest done 0)

/-- An addition that fails has taken its item, and no more are taken. -/
theorem Enters.exec_sum_of_error {x : Value} {e : Error} (h : Enters v s (before ++ x :: after) i t)
    (done : start.total before = .ok sum) (failed : sum.add x = .error e) :
    exec (Run.sum v start) s = (.error e, t.skip i (before.length + 1)) := by
  have next : ((t.skip i before.length).cursor i).rest = x :: after := by
    rw [Store.rest_skip, h.rest, List.drop_left]
  rw [h.exec_sum_eq, List.length_append, Run.exec_foldLoop_append h.rest done, List.length_cons, Run.foldLoop,
    Run.exec_next_bind, Store.advance_of_rest_cons next]
  dsimp only
  rw [failed, Store.skip_skip]
  rfl

theorem Enters.rest_of_iter (h : Enters v s (before ++ after) i t) {j : Nat} (iterator : v = .iter j) :
    ((t.skip i before.length).cursor j).rest = after := by
  subst iterator
  have found := h.found
  cases found
  rw [Store.rest_skip, h.rest, List.drop_left]

theorem Value.total_of_add_error {x : Value} {e : Error} (done : start.total before = .ok sum)
    (failed : sum.add x = .error e) (after : List Value) : start.total (before ++ x :: after) = .error e := by
  rw [total_append, done]
  change sum.total (x :: after) = _
  rw [total, List.foldlM_cons, failed]
  rfl

/-- The first addition that cannot be done: the total so far or the item is no number. -/
def Value.BreaksAt (start : Value) (before : List Value) (x : Value) : Prop :=
  before = [] ∧ start.number? = Option.none ∨ (∀ y ∈ start :: before, y.number?.isSome) ∧ x.number? = Option.none

theorem Value.BreaksAt.exists_total {x : Value} (h : start.BreaksAt before x) :
    ∃ sum, start.total before = .ok sum ∧ sum.add x = .error (.notAddable sum.kind x.kind) := by
  rcases h with ⟨rfl, absent⟩ | ⟨numbers, absent⟩
  · exact ⟨start, rfl, add_of_not_number (.inl absent)⟩
  · obtain ⟨first, others⟩ := List.forall_mem_cons.1 numbers
    obtain ⟨sum, added, -⟩ := exists_total_of_numbers first others
    exact ⟨sum, added, add_of_not_number (.inr absent)⟩

theorem Value.exists_breaksAt (present : xs ≠ []) (absent : ∃ x ∈ start :: xs, x.number? = Option.none) :
    ∃ before x after, xs = before ++ x :: after ∧ start.BreaksAt before x := by
  cases first : start.number? with
  | none =>
    obtain ⟨x, after, rfl⟩ := List.exists_cons_of_ne_nil present
    exact ⟨[], x, after, rfl, .inl ⟨rfl, first⟩⟩
  | some n =>
    obtain ⟨y, mem, missing⟩ := absent
    have inside : y ∈ xs := (List.mem_cons.1 mem).resolve_left fun same => by
      rw [same, first] at missing
      cases missing
    obtain ⟨x, found⟩ := Option.isSome_iff_exists.1
      (List.find?_isSome (p := fun x => x.number?.isNone).2 ⟨y, inside, by rw [missing]; rfl⟩)
    obtain ⟨none, before, after, rfl, numbers⟩ := List.find?_eq_some_iff_append.1 found
    refine ⟨before, x, after, rfl, .inr ⟨?_, Option.isNone_iff_eq_none.1 none⟩⟩
    refine List.forall_mem_cons.2 ⟨by rw [first]; rfl, ?_⟩
    intro z hz
    simpa using numbers z hz

end Exec

/-- Sums of at least one item. Of words alone, the sum is the exact one if the sums of all prefixes are words, and a
double otherwise; with a double among the numbers it is a double, and once the running total is a double it stays one.
The sum fails if and only if the start or an item is no number. It does so at the first addition with such an operand,
with the kinds of the total so far and of the item, and takes no item after that one. -/
theorem sum_exact_or_float {v : Value} {s : Store} {xs : List Value} (items : v.items? s = some xs)
    (present : xs ≠ []) (start : Value) :
    (exec (Run.sum v start) s).1 = start.total xs ∧
    (∀ (first : Int64) (ws : List Int64), start.word? = some first → xs.map Value.word? = ws.map some →
      ∃ sum t, exec (Run.sum v start) s = (.ok sum, t) ∧ s.Consumed v t ∧
        ((∀ k, Word.Fits (Word.exactSum first (ws.take k))) → ∃ w, sum = .int w ∧ w.toInt = Word.exactSum first ws) ∧
        ∀ k, ¬Word.Fits (Word.exactSum first (ws.take k)) → ∃ x, sum = .float x) ∧
    ((∀ a ∈ start :: xs, a.number?.isSome) → ∀ y, .float y ∈ start :: xs →
      ∃ x t, exec (Run.sum v start) s = (.ok (.float x), t) ∧ s.Consumed v t) ∧
    (∀ k m x sum, k ≤ m → start.total (xs.take k) = .ok (.float x) → start.total (xs.take m) = .ok sum →
      ∃ y, sum = .float y) ∧
    ((∃ e t, exec (Run.sum v start) s = (.error e, t) ∧ e.category = .typeError) ↔
      ∃ a ∈ start :: xs, a.number? = none) ∧
    ∀ before x after, xs = before ++ x :: after → start.BreaksAt before x →
      ∃ sum e t, start.total before = .ok sum ∧ exec (Run.sum v start) s = (.error e, t) ∧
        (∀ store, e.message store =
          s!"unsupported operand type(s) for +: '{sum.kind.name}' and '{x.kind.name}'") ∧
        ∀ j, v = .iter j → (t.cursor j).rest = after := by
  obtain ⟨i, t, enters⟩ := Value.exists_enters items
  have breaks {before : List Value} {x : Value} {after : List Value} (parts : xs = before ++ x :: after)
      (h : start.BreaksAt before x) : ∃ sum, start.total before = .ok sum ∧
        start.total xs = .error (.notAddable sum.kind x.kind) ∧
        exec (Run.sum v start) s = (.error (.notAddable sum.kind x.kind), t.skip i (before.length + 1)) := by
    obtain ⟨sum, done, failed⟩ := h.exists_total
    subst parts
    exact ⟨sum, done, Value.total_of_add_error done failed after, enters.exec_sum_of_error done failed⟩
  have numbers (h : ¬∃ a ∈ start :: xs, a.number? = none) : ∃ sum, start.total xs = .ok sum := by
    have all : ∀ a ∈ start :: xs, a.number?.isSome := fun a mem =>
      Option.isSome_iff_ne_none.2 fun absent => h ⟨a, mem, absent⟩
    obtain ⟨first, others⟩ := List.forall_mem_cons.1 all
    obtain ⟨sum, done, -⟩ := Value.exists_total_of_numbers first others
    exact ⟨sum, done⟩
  refine ⟨?_, ?_, ?_, ?_, ?_, ?_⟩
  · by_cases absent : ∃ a ∈ start :: xs, a.number? = none
    · obtain ⟨before, x, after, parts, h⟩ := Value.exists_breaksAt present absent
      obtain ⟨sum, -, failed, ran⟩ := breaks parts h
      rw [ran, failed]
    · obtain ⟨sum, done⟩ := numbers absent
      rw [enters.exec_sum_of_ok done, done]
  · intro first ws word given
    have same := Value.total_of_word word given present
    by_cases fits : ∀ k, Word.Fits (Word.exactSum first (ws.take k))
    · obtain ⟨w, done, exact⟩ := Value.exists_total_int given fits
      refine ⟨_, _, enters.exec_sum_of_ok (same.trans done), enters.consumed, fun _ => ⟨w, rfl, exact⟩, ?_⟩
      intro k out
      exact absurd (fits k) out
    · obtain ⟨k, out⟩ := not_forall.1 fits
      obtain ⟨x, done⟩ := Value.exists_total_float_of_overflow given out
      have summed := enters.exec_sum_of_ok (same.trans done)
      exact ⟨_, _, summed, enters.consumed, fun h => absurd h fits, fun _ _ => ⟨x, rfl⟩⟩
  · intro numbers y mem
    obtain ⟨z, done⟩ := Value.exists_total_of_float numbers mem
    exact ⟨z, _, enters.exec_sum_of_ok done, enters.consumed⟩
  · intro k m x sum le early late
    have front : (xs.take m).take k = xs.take k := by rw [List.take_take, Nat.min_eq_left le]
    rw [← List.take_append_drop k (xs.take m), front, Value.total_append, early] at late
    exact Value.eq_float_of_total_float late
  · constructor
    · rintro ⟨e, u, failed, -⟩
      by_contra absent
      obtain ⟨sum, done⟩ := numbers absent
      cases failed.symm.trans (enters.exec_sum_of_ok done)
    · intro absent
      obtain ⟨before, x, after, parts, h⟩ := Value.exists_breaksAt present absent
      obtain ⟨sum, -, -, ran⟩ := breaks parts h
      exact ⟨_, _, ran, rfl⟩
  · intro before x after parts h
    obtain ⟨sum, done, -, ran⟩ := breaks parts h
    refine ⟨sum, _, _, done, ran, fun _ => rfl, ?_⟩
    intro j iterator
    have split : xs = (before ++ [x]) ++ after := by rw [parts, List.append_assoc, List.singleton_append]
    rw [split] at enters
    have left := enters.rest_of_iter iterator
    rwa [List.length_append, List.length_singleton] at left

namespace Tally

/-- The greatest word, one more and one less. -/
def words : List Int64 := [Int64.maxValue, 1, -1]

theorem overflow : ¬Word.Fits (Word.exactSum 0 (words.take 2)) := by
  rw [Word.fits_iff]
  decide

theorem fits (k : Nat) : Word.Fits (Word.exactSum 1 ([1, 2].take k)) := by
  rw [Word.fits_iff]
  rcases k with _ | _ | k
  · decide
  · decide
  · rw [List.take_of_length_le (by simp)]
    decide

/-- A number, a text and no value. -/
def mixed : List Value := [.int 2, .str ⟨['a']⟩, .none]

theorem breaks_at_text : (Value.bool true).BreaksAt [.int 2] (.str ⟨['a']⟩) := by
  refine .inr ⟨?_, rfl⟩
  simp [Value.number?]

end Tally

/-- Two items of an iterator, added to a truth value, give a word. A sum that leaves the words is a double although it
comes back, and a text is refused with the kinds of the total before it and of the text. -/
theorem tally_summed :
    (∃ w t, exec (Run.sum (.iter 0) (.bool true)) Box.session.store = (.ok (.int w), t) ∧ w.toInt = 4 ∧
      (t.cursor 0).remaining = 0) ∧
    (∃ x t, exec (Run.sum (.list (Tally.words.map .int)) (.int 0)) .empty = (.ok (.float x), t)) ∧
    ∃ e t, exec (Run.sum (.list Tally.mixed) (.bool true)) .empty = (.error e, t) ∧
      e.message .empty = "unsupported operand type(s) for +: 'int' and 'str'" := by
  refine ⟨?_, ?_, ?_⟩
  · have items : (Value.iter 0).items? Box.session.store = some [.int 1, .int 2] := rfl
    obtain ⟨-, words, -⟩ := sum_exact_or_float items nofun (.bool true)
    obtain ⟨sum, t, ran, consumed, exact, -⟩ := words 1 [1, 2] rfl rfl
    obtain ⟨w, rfl, four⟩ := exact Tally.fits
    exact ⟨w, t, ran, four, consumed.exhausted 0 rfl⟩
  · obtain ⟨-, words, -⟩ := sum_exact_or_float (Value.items?_list .empty (Tally.words.map .int)) nofun (.int 0)
    obtain ⟨sum, t, ran, -, -, inexact⟩ := words 0 Tally.words rfl rfl
    obtain ⟨x, rfl⟩ := inexact 2 Tally.overflow
    exact ⟨x, t, ran⟩
  · obtain ⟨-, -, -, -, -, breaks⟩ := sum_exact_or_float (Value.items?_list .empty Tally.mixed) nofun (.bool true)
    obtain ⟨sum, e, t, done, ran, message, -⟩ := breaks [.int 2] (.str ⟨['a']⟩) [.none] rfl Tally.breaks_at_text
    have three : (Value.bool true).total [.int 2] = .ok (.int 3) := rfl
    cases three.symm.trans done
    exact ⟨e, t, ran, message .empty⟩

end DynamicValues
