import DynamicValues.Proofs.Slice
import DynamicValues.Proofs.Text.Occurrence
import DynamicValues.Session.Reply
import DynamicValues.Subscript

/-!
Finding a text in another one. The bounds of a search stand for two integers, from which and up to which an
occurrence may reach; a window of characters is searched in their place. The last occurrence is the first one
of the text read backwards.
-/

set_option autoImplicit false

namespace DynamicValues

namespace Text

/-- The integer by which a position is answered. Minus one says that there is none. -/
def answer (o : Option Nat) : Int := o.elim (-1) Int.ofNat

@[simp] theorem answer_none : answer none = -1 := rfl

@[simp] theorem answer_some (i : Nat) : answer (some i) = i := rfl

theorem answer_eq_neg_one_iff {o : Option Nat} : answer o = -1 ↔ o = none := by
  cases o with
  | none => simp
  | some i =>
    rw [answer_some]
    exact iff_of_false (by omega) nofun

end Text

theorem Reply.position_eq {o : Option Nat} (small : ∀ i, o = some i → (i : Int) < Word.limit) :
    ∃ n : Int64, Reply.position o = .int n ∧ n.toInt = Text.answer o := by
  cases o with
  | none => exact ⟨-1, rfl, rfl⟩
  | some i => exact ⟨Int64.ofNat i, rfl, Word.toInt_ofNat (small i rfl)⟩

namespace Text

/-- The integer from which a search may find something. It may lie past the end of the text. -/
def searchStart (t : Text) (start : Option Int64) : Int :=
  start.elim 0 fun i => max 0 (Slice.wrap i t.length)

/-- The integer up to which a search may find something. -/
def searchStop (t : Text) (stop : Option Int64) : Int :=
  stop.elim t.length fun i => max 0 (min (Slice.wrap i t.length) t.length)

/-- The places from which `sub` occurs between the bounds of a search. -/
def placesWithin (t sub : Text) (start stop : Option Int64) : Set Nat :=
  {i | t.searchStart start ≤ i ∧ (i : Int) + sub.length ≤ t.searchStop stop ∧ i ∈ places sub.chars t.chars}

section Bounds

variable {t : Text} {start stop : Option Int64} {lo hi : Nat}

theorem searchStop_le (t : Text) (stop : Option Int64) : t.searchStop stop ≤ t.length := by
  cases stop with
  | none => exact Int.le_refl _
  | some i =>
    simp only [searchStop, Option.elim_some]
    omega

theorem searchStart_nonneg (t : Text) (start : Option Int64) : 0 ≤ t.searchStart start := by
  cases start with
  | none => exact Int.le_refl 0
  | some i => exact Int.le_max_left _ _

theorem past_end_iff (start : Option Int64) :
    (start.any fun i => (t.length : Int) < i.toInt) = true ↔ (t.length : Int) < t.searchStart start := by
  cases start with
  | none => simp [searchStart]
  | some i =>
    simp only [Option.any_some, decide_eq_true_iff, searchStart, Option.elim_some, Slice.wrap]
    omega

/-- Where there is a window, it is that of a slice. -/
theorem window_of_searchWindow (h : t.searchWindow start stop = some (lo, hi)) :
    Slice.window start stop t.length = (lo, hi) := by
  unfold searchWindow at h
  split at h
  · cases h
  · dsimp only at h
    split at h
    · exact Option.some.inj h
    · cases h

theorem mem_places_between {sub : List Char} (ordered : lo ≤ hi) (inside : hi ≤ t.length) {i : Nat} :
    i ∈ places sub (t.between lo hi) ↔ lo + i + sub.length ≤ hi ∧ lo + i ∈ places sub t.chars := by
  have taken : lo ≤ (t.chars.take hi).length := by rwa [List.length_take_of_le inside]
  rw [between, mem_places_drop taken, mem_places_take inside]

end Bounds

/-! No text in memory is longer than the largest word, and up to there the saturating sums do not show. -/

section Window

variable {t : Text} (small : (t.length : Int) < Word.limit) {start stop : Option Int64} {lo hi : Nat}
include small

theorem resolveBound_stop (stop : Option Int64) :
    (Slice.resolveBound stop t.length t.length 0 : Int) = t.searchStop stop := by
  cases stop with
  | none => rfl
  | some i =>
    rw [Slice.resolveBound_some i _ 0 small]
    simp only [searchStop, Option.elim_some, Slice.wrap]
    omega

/-- A slice begins at the end of the text at the latest, a search may begin past it. -/
theorem resolveBound_start (start : Option Int64) :
    (Slice.resolveBound start t.length 0 0 : Int) = min (t.searchStart start) t.length := by
  cases start with
  | none => simp [Slice.resolveBound, searchStart]
  | some i =>
    rw [Slice.resolveBound_some i _ 0 small]
    simp only [searchStart, Option.elim_some, Slice.wrap]
    omega

theorem searchWindow_eq (start stop : Option Int64) :
    t.searchWindow start stop =
      if t.searchStart start ≤ t.searchStop stop then
        some ((t.searchStart start).toNat, (t.searchStop stop).toNat)
      else none := by
  have lower := resolveBound_start small start
  have upper := resolveBound_stop small stop
  have within := t.searchStop_le stop
  unfold searchWindow
  split
  · next past =>
    have past := (past_end_iff start).1 past
    rw [if_neg (by omega)]
  · next inside =>
    have inside := mt (past_end_iff start).2 inside
    rw [Int.min_eq_left (by omega)] at lower
    simp only [Slice.window]
    rw [← lower, ← upper]
    exact if_congr Int.ofNat_le.symm rfl rfl

theorem bounds_of_searchWindow (h : t.searchWindow start stop = some (lo, hi)) :
    t.searchStart start = lo ∧ t.searchStop stop = hi ∧ lo ≤ hi ∧ hi ≤ t.length := by
  have nonneg := t.searchStart_nonneg start
  have within := t.searchStop_le stop
  rw [searchWindow_eq small] at h
  split at h
  · cases h
    omega
  · cases h

theorem searchStop_lt_of_no_window (h : t.searchWindow start stop = none) :
    t.searchStop stop < t.searchStart start := by
  rw [searchWindow_eq small] at h
  split at h
  · cases h
  · next inverted => exact Int.not_le.1 inverted

/-- Where there is no window, the slice is empty. -/
theorem window_of_no_window (h : t.searchWindow start stop = none) :
    (Slice.window start stop t.length).2 ≤ (Slice.window start stop t.length).1 := by
  have lower := resolveBound_start small start
  have upper := resolveBound_stop small stop
  have within := t.searchStop_le stop
  have inverted := searchStop_lt_of_no_window small h
  dsimp only [Slice.window]
  omega

theorem placesWithin_of_window (sub : Text) (h : t.searchWindow start stop = some (lo, hi)) :
    t.placesWithin sub start stop = (lo + ·) '' places sub.chars (t.between lo hi) := by
  obtain ⟨first, last, ordered, inside⟩ := bounds_of_searchWindow small h
  ext i
  constructor
  · rintro ⟨front, back, here⟩
    rw [first] at front
    rw [last] at back
    obtain ⟨j, rfl⟩ := Nat.exists_eq_add_of_le (Int.ofNat_le.1 front)
    exact ⟨j, (mem_places_between ordered inside).2 ⟨Int.ofNat_le.1 back, here⟩, rfl⟩
  · rintro ⟨j, here, rfl⟩
    obtain ⟨back, here⟩ := (mem_places_between ordered inside).1 here
    refine ⟨?_, ?_, here⟩
    · rw [first]
      exact Int.ofNat_le.2 (Nat.le_add_right lo j)
    · rw [last]
      exact Int.ofNat_le.2 back

theorem placesWithin_of_no_window (sub : Text) (h : t.searchWindow start stop = none) :
    t.placesWithin sub start stop = ∅ := by
  have inverted := searchStop_lt_of_no_window small h
  rw [Set.eq_empty_iff_forall_notMem]
  rintro i ⟨front, back, -⟩
  omega

/-- The search in a window, moved to where the window begins. -/
theorem finds_findIn? (sub : Text) (start stop : Option Int64) :
    Finds IsLeast (t.placesWithin sub start stop) (t.findIn? sub start stop) := by
  cases h : t.searchWindow start stop with
  | none =>
    rw [placesWithin_of_no_window small sub h, findIn?_of_no_window h]
    exact .missing rfl
  | some window =>
    have shifted : Monotone (window.1 + ·) := fun _ _ ordered => Nat.add_le_add_left ordered _
    rw [placesWithin_of_window small sub h, findIn?_of_window h]
    exact (finds_firstIndex? _ _).map fun _ least => shifted.map_isLeast least

end Window

theorem placesWithin_none (t sub : Text) : t.placesWithin sub none none = places sub.chars t.chars := by
  ext i
  constructor
  · rintro ⟨-, -, here⟩
    exact here
  · intro here
    have inside := here.1
    refine ⟨by simp [searchStart], ?_, here⟩
    simp only [searchStop, Option.elim_none, length]
    omega

theorem searchWindow_none (t : Text) : t.searchWindow none none = some (0, t.length) := by
  simp [searchWindow, Slice.window, Slice.resolveBound]

theorem between_zero (t : Text) : t.between 0 t.length = t.chars := by simp [between, length]

theorem find?_eq (t sub : Text) : t.find? sub = firstIndex? sub.chars t.chars := by
  rw [find?, findIn?_of_window t.searchWindow_none, between_zero]
  simp only [Nat.zero_add, Option.map_id_fun', id_eq]

theorem finds_find? (t sub : Text) : Finds IsLeast (places sub.chars t.chars) (t.find? sub) := by
  rw [find?_eq]
  exact finds_firstIndex? _ _

theorem contains_eq (t sub : Text) : t.contains sub = (t.find? sub).isSome := by
  rw [find?_eq, firstIndex?, Option.isSome_map]
  rfl

theorem contains_eq_false_iff {t sub : Text} : t.contains sub = false ↔ places sub.chars t.chars = ∅ := by
  rw [contains_eq, Option.isSome_eq_false_iff, Option.isNone_iff_eq_none, (finds_find? t sub).least_eq_none_iff]

theorem index_eq_ok_iff {t sub : Text} {start stop : Option Int64} {i : Nat} :
    t.index sub start stop = .ok i ↔ t.findIn? sub start stop = some i := by
  cases h : t.findIn? sub start stop <;> simp [index, h]

theorem index_eq_error_iff {t sub : Text} {start stop : Option Int64} {e : Error} :
    t.index sub start stop = .error e ↔ t.findIn? sub start stop = none ∧ e = .substringNotFound := by
  cases h : t.findIn? sub start stop <;> simp [index, h, eq_comm]

/-- A search answers the least place between its bounds, as a word, and minus one exactly if there is none;
`index` refuses then, and answers the same otherwise. Without bounds, all places count, and `contains` says
whether there is one. The length of the text is a word, as that of every text in memory. -/
theorem findIn_least_between_bounds (t sub : Text) (start stop : Option Int64)
    (small : (t.length : Int) ≤ Int64.maxValue.toInt) :
    (∀ i, t.findIn? sub start stop = some i ↔ IsLeast (t.placesWithin sub start stop) i) ∧
    (answer (t.findIn? sub start stop) = -1 ↔ t.placesWithin sub start stop = ∅) ∧
    (∃ n : Int64, Reply.position (t.findIn? sub start stop) = .int n ∧
      n.toInt = answer (t.findIn? sub start stop)) ∧
    (∀ i, t.index sub start stop = .ok i ↔ t.findIn? sub start stop = some i) ∧
    ((∃ e, t.index sub start stop = .error e ∧ e.category = .valueError) ↔
      answer (t.findIn? sub start stop) = -1) ∧
    t.find? sub = t.findIn? sub none none ∧ t.placesWithin sub none none = places sub.chars t.chars ∧
    (t.contains sub = true ↔ answer (t.find? sub) ≠ -1) := by
  have small : (t.length : Int) < Word.limit := Int.lt_of_le_of_lt small (by decide)
  have finds := finds_findIn? small sub start stop
  refine ⟨fun i => finds.least_eq_some_iff, ?_, ?_, fun i => index_eq_ok_iff, ?_, rfl, t.placesWithin_none sub, ?_⟩
  · rw [answer_eq_neg_one_iff, finds.least_eq_none_iff]
  · refine Reply.position_eq fun i here => ?_
    obtain ⟨-, back, -⟩ := (finds.least_eq_some_iff.1 here).1
    have within := t.searchStop_le stop
    omega
  · rw [answer_eq_neg_one_iff]
    constructor
    · rintro ⟨e, refused, -⟩
      exact (index_eq_error_iff.1 refused).1
    · intro missing
      exact ⟨.substringNotFound, index_eq_error_iff.2 ⟨missing, rfl⟩, rfl⟩
  · rw [contains_eq, Option.isSome_iff_ne_none]
    exact not_congr answer_eq_neg_one_iff.symm

namespace Refrain

/-- Characters of two and of three bytes. -/
def text : Text := ⟨['é', '本', 'é', '本', 'é']⟩

def sub : Text := ⟨['é', '本', 'é']⟩

end Refrain

/-- From the fourth character before the end on, the first of two overlapping occurrences is out of reach. -/
theorem refrain_found_between_bounds :
    IsLeast (Refrain.text.placesWithin Refrain.sub (some (-4)) none) 2 ∧
      Refrain.text.placesWithin Refrain.sub (some 6) none = ∅ := by
  obtain ⟨found, -⟩ := findIn_least_between_bounds Refrain.text Refrain.sub (some (-4)) none (by decide)
  obtain ⟨-, missing, -⟩ := findIn_least_between_bounds Refrain.text Refrain.sub (some 6) none (by decide)
  exact ⟨(found 2).1 (by decide), missing.1 (by decide)⟩

theorem finds_rfind? (t sub : Text) : Finds IsGreatest (places sub.chars t.chars) (t.rfind? sub) := by
  have turned : Antitone fun i => t.chars.length - i - sub.chars.length := fun i j ordered => by
    dsimp only
    omega
  rw [places_eq_image_reverse, rfind?_eq]
  exact (finds_firstIndex? _ _).map fun _ least => turned.map_isLeast least

/-- The last occurrence begins at the greatest place. It is found from the end, at a distance that leaves room
for the text sought, and there is one exactly if there is a first one. -/
theorem rfind_greatest (t sub : Text) :
    (∀ i, t.rfind? sub = some i ↔ IsGreatest (places sub.chars t.chars) i) ∧
    (answer (t.rfind? sub) = -1 ↔ places sub.chars t.chars = ∅) ∧
    (answer (t.rfind? sub) = -1 ↔ answer (t.find? sub) = -1) ∧
    (∀ i, firstIndex? sub.chars.reverse t.chars.reverse = some i →
      i + sub.length ≤ t.length ∧ answer (t.rfind? sub) = (t.length : Int) - i - sub.length) ∧
    answer (t.find? sub) ≤ answer (t.rfind? sub) := by
  have first := finds_find? t sub
  have last := finds_rfind? t sub
  refine ⟨fun i => last.greatest_eq_some_iff, ?_, ?_, ?_, ?_⟩
  · rw [answer_eq_neg_one_iff, last.greatest_eq_none_iff]
  · rw [answer_eq_neg_one_iff, answer_eq_neg_one_iff, last.greatest_eq_none_iff, first.least_eq_none_iff]
  · intro i found
    have inside := ((finds_firstIndex? _ _).least_eq_some_iff.1 found).1.1
    rw [List.length_reverse, List.length_reverse] at inside
    rw [rfind?_eq, found, Option.map_some, answer_some, length, length]
    omega
  · generalize t.find? sub = least at first
    generalize t.rfind? sub = greatest at last
    cases first with
    | missing empty =>
      rw [last.greatest_eq_none_iff.2 empty]
    | place least =>
      cases last with
      | missing empty => exact absurd empty least.nonempty.ne_empty
      | place greatest =>
        rw [answer_some, answer_some]
        exact Int.ofNat_le.2 (least.2 greatest.1)

/-- Of two overlapping occurrences, the one that ends last is the one that begins last. -/
theorem refrain_found_last :
    IsGreatest (places Refrain.sub.chars Refrain.text.chars) 2 ∧ 0 + Refrain.sub.length ≤ Refrain.text.length := by
  obtain ⟨last, -, -, room, -⟩ := rfind_greatest Refrain.text Refrain.sub
  exact ⟨(last 2).1 (by decide), (room 0 (by decide)).1⟩

end Text
end DynamicValues
