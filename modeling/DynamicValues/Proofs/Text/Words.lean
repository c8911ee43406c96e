import DynamicValues.Proofs.Text.Split
import DynamicValues.Session.TextQuery

/-!
Words are the longest runs of characters that are not blank. A text with a blank in it has the words on both sides of
the blank, and nothing else about them is used: blanks at an end add no word, and words that were joined by blanks
come back.
-/

set_option autoImplicit false

namespace DynamicValues.Text

theorem isBlank_iff {c : Char} : isBlank c = true ↔ c ∈ [' ', '\t', '\n'] := List.contains_iff_mem

section Positions

variable {s rest front : List Char} {lo hi : Nat}

/-- Whether a space, a tab or a newline stands at a position. -/
def blankAt (s : List Char) (i : Nat) : Bool := s[i]?.any [' ', '\t', '\n'].contains

/-- The characters from `lo` up to and without `hi`: at least one, and none that is blank. -/
structure Solid (s : List Char) (lo hi : Nat) : Prop where
  nonempty : lo < hi
  inside : hi ≤ s.length
  free : ∀ i, lo ≤ i → i < hi → blankAt s i = false

/-- A solid run that no longer one includes. -/
structure IsWord (s : List Char) (lo hi : Nat) : Prop extends Solid s lo hi where
  longest : ∀ lo' hi', lo' ≤ lo → hi ≤ hi' → Solid s lo' hi' → lo' = lo ∧ hi' = hi

/-- A word is bounded by blanks or the ends of the text. -/
theorem isWord_iff :
    IsWord s lo hi ↔
      Solid s lo hi ∧ (∀ i, i + 1 = lo → blankAt s i = true) ∧ (hi < s.length → blankAt s hi = true) := by
  constructor
  · intro word
    refine ⟨word.toSolid, ?_, ?_⟩
    · rintro i rfl
      by_contra clear
      have longer : Solid s i hi := by
        refine ⟨by have := word.nonempty; omega, word.inside, ?_⟩
        intro j above below
        rcases Nat.eq_or_lt_of_le above with rfl | above
        · simpa using clear
        · exact word.free j above below
      have same := (word.longest i hi (Nat.le_succ i) (Nat.le_refl hi) longer).1
      omega
    · intro more
      by_contra clear
      have longer : Solid s lo (hi + 1) := by
        refine ⟨by have := word.nonempty; omega, more, ?_⟩
        intro j above below
        rcases Nat.eq_or_lt_of_le (Nat.le_of_lt_succ below) with rfl | below
        · simpa using clear
        · exact word.free j above below
      have same := (word.longest lo (hi + 1) (Nat.le_refl lo) (Nat.le_succ hi) longer).2
      omega
  · rintro ⟨solid, left, right⟩
    refine ⟨solid, ?_⟩
    intro lo' hi' before after longer
    have nonempty := solid.nonempty
    constructor
    · by_contra different
      have clear := longer.free (lo - 1) (by omega) (by omega)
      rw [left (lo - 1) (by omega)] at clear
      cases clear
    · by_contra different
      have clear := longer.free hi (by omega) (by omega)
      rw [right (by have := longer.inside; omega)] at clear
      cases clear

theorem blankAt_of_free (free : ∀ c ∈ s, isBlank c = false) (i : Nat) : blankAt s i = false := by
  rw [blankAt]
  cases here : s[i]? with
  | none => rfl
  | some c => exact free c (List.mem_of_getElem? here)

theorem blankAt_append_left {i : Nat} (inside : i < front.length) (rest : List Char) :
    blankAt (front ++ rest) i = blankAt front i := by
  rw [blankAt, blankAt, List.getElem?_append_left inside]

section Cut

variable {c : Char}

theorem blankAt_cut (blank : isBlank c = true) : blankAt (front ++ c :: rest) front.length = true := by
  rw [blankAt, List.getElem?_append_right (Nat.le_refl _), Nat.sub_self, List.getElem?_cons_zero, Option.any_some]
  exact blank

theorem blankAt_behind (i : Nat) : blankAt (front ++ c :: rest) (front.length + 1 + i) = blankAt rest i := by
  have behind : front.length ≤ front.length + 1 + i := by omega
  have moved : front.length + 1 + i - front.length = i + 1 := by omega
  rw [blankAt, blankAt, List.getElem?_append_right behind, moved, List.getElem?_cons_succ]

theorem length_cut : (front ++ c :: rest).length = front.length + 1 + rest.length := by
  rw [List.length_append, List.length_cons]
  omega

variable (blank : isBlank c = true)
include blank

theorem Solid.apart (solid : Solid (front ++ c :: rest) lo hi) : hi ≤ front.length ∨ front.length < lo := by
  by_contra across
  have clear := solid.free front.length (by omega) (by omega)
  rw [blankAt_cut blank] at clear
  cases clear

/-- A blank ends a text as its end does. -/
theorem isWord_before (inside : hi ≤ front.length) : IsWord (front ++ c :: rest) lo hi ↔ IsWord front lo hi := by
  have early (i : Nat) (below : i < front.length) := blankAt_append_left below (c :: rest)
  rw [isWord_iff, isWord_iff, length_cut]
  constructor
  · rintro ⟨⟨nonempty, -, free⟩, left, right⟩
    refine ⟨⟨nonempty, inside, fun i above below => ?_⟩, fun i next => ?_, fun more => ?_⟩
    · rw [← early i (by omega)]
      exact free i above below
    · rw [← early i (by omega)]
      exact left i next
    · rw [← early hi more]
      exact right (by omega)
  · rintro ⟨⟨nonempty, -, free⟩, left, right⟩
    refine ⟨⟨nonempty, by rw [length_cut]; omega, fun i above below => ?_⟩, fun i next => ?_, fun _ => ?_⟩
    · rw [early i (by omega)]
      exact free i above below
    · rw [early i (by omega)]
      exact left i next
    · rcases Nat.eq_or_lt_of_le inside with rfl | more
      · exact blankAt_cut blank
      · rw [early hi more]
        exact right more

/-- A blank begins a text as its start does. -/
theorem isWord_behind :
    IsWord (front ++ c :: rest) (front.length + 1 + lo) (front.length + 1 + hi) ↔ IsWord rest lo hi := by
  rw [isWord_iff, isWord_iff, length_cut]
  constructor
  · rintro ⟨⟨nonempty, inside, free⟩, left, right⟩
    rw [length_cut] at inside
    refine ⟨⟨by omega, by omega, fun i above below => ?_⟩, fun i next => ?_, fun more => ?_⟩
    · rw [← blankAt_behind]
      exact free _ (by omega) (by omega)
    · rw [← blankAt_behind]
      exact left _ (by omega)
    · rw [← blankAt_behind]
      exact right (by omega)
  · rintro ⟨⟨nonempty, inside, free⟩, left, right⟩
    refine ⟨⟨by omega, by rw [length_cut]; omega, fun i above below => ?_⟩, fun i next => ?_, fun more => ?_⟩
    · obtain ⟨i, rfl⟩ := Nat.exists_eq_add_of_le (Nat.le_trans (Nat.le_add_right _ lo) above)
      rw [blankAt_behind]
      exact free i (by omega) (by omega)
    · rcases Nat.eq_zero_or_pos lo with rfl | later
      · obtain rfl : i = front.length := by omega
        exact blankAt_cut blank
      · obtain ⟨i, rfl⟩ := Nat.exists_eq_add_of_le (by omega : front.length + 1 ≤ i)
        rw [blankAt_behind]
        exact left i (by omega)
    · rw [blankAt_behind]
      exact right (by omega)

/-- A word stands before a blank or after it. -/
theorem isWord_append_cons :
    IsWord (front ++ c :: rest) lo hi ↔ IsWord front lo hi ∨
      ∃ lo' hi', lo = front.length + 1 + lo' ∧ hi = front.length + 1 + hi' ∧ IsWord rest lo' hi' := by
  constructor
  · intro word
    rcases word.toSolid.apart blank with before | behind
    · exact .inl ((isWord_before blank before).1 word)
    · obtain ⟨lo', rfl⟩ := Nat.exists_eq_add_of_le behind
      obtain ⟨hi', rfl⟩ := Nat.exists_eq_add_of_le (Nat.le_trans behind (Nat.le_of_lt word.nonempty))
      exact .inr ⟨lo', hi', rfl, rfl, (isWord_behind blank).1 word⟩
  · rintro (word | ⟨lo', hi', rfl, rfl, word⟩)
    · exact (isWord_before blank word.inside).2 word
    · exact (isWord_behind blank).2 word

end Cut

theorem isWord_of_free (free : ∀ c ∈ s, isBlank c = false) : IsWord s lo hi ↔ lo = 0 ∧ hi = s.length ∧ s ≠ [] := by
  have clear := blankAt_of_free free
  rw [isWord_iff, ← List.length_pos_iff]
  constructor
  · rintro ⟨⟨nonempty, inside, -⟩, left, right⟩
    refine ⟨?_, ?_, by omega⟩
    · by_contra later
      have blanked := left (lo - 1) (by omega)
      rw [clear] at blanked
      cases blanked
    · by_contra shorter
      have blanked := right (by omega)
      rw [clear] at blanked
      cases blanked
  · rintro ⟨rfl, rfl, nonempty⟩
    exact ⟨⟨nonempty, Nat.le_refl _, fun i _ _ => clear i⟩, fun i next => by omega, fun more => by omega⟩

end Positions

section Runs

variable {s front rest w : List Char} {c : Char}

/-- The words of a list of characters. -/
def runs (s : List Char) : List (List Char) := (fieldsBy isBlank s).filter fun f => !f.isEmpty

theorem split_none (t : Text) : t.split none = .ok ((runs t.chars).map Text.mk) := rfl

theorem fieldsBy_eq_splitOnP (p : Char → Bool) (s : List Char) : fieldsBy p s = s.splitOnP p := by
  induction s with
  | nil => rfl
  | cons c s ih =>
    rw [fieldsBy, ih, List.splitOnP_cons_eq_if_modifyHead]
    cases parts : s.splitOnP p with
    | nil => exact absurd parts (List.splitOnP_ne_nil p s)
    | cons f fs => rfl

/-- Words split at a blank; all else about them follows. -/
theorem runs_append_cons (blank : isBlank c = true) (front rest : List Char) :
    runs (front ++ c :: rest) = runs front ++ runs rest := by
  unfold runs
  rw [fieldsBy_eq_splitOnP, List.splitOnP_append_cons front rest blank, List.filter_append, fieldsBy_eq_splitOnP,
    fieldsBy_eq_splitOnP]

theorem runs_of_free (free : ∀ c ∈ s, isBlank c = false) : runs s = if s = [] then [] else [s] := by
  rw [runs, fieldsBy_eq_splitOnP, List.splitOnP_eq_singleton free]
  cases s <;> rfl

theorem runs_append_of_blank (blank : ∀ c ∈ w, isBlank c = true) (s : List Char) : runs (w ++ s) = runs s := by
  induction w with
  | nil => rfl
  | cons c w ih =>
    obtain ⟨first, others⟩ := List.forall_mem_cons.1 blank
    exact (runs_append_cons first [] (w ++ s)).trans (ih others)

theorem runs_append_blank (blank : ∀ c ∈ w, isBlank c = true) (s : List Char) : runs (s ++ w) = runs s := by
  cases w with
  | nil => rw [List.append_nil]
  | cons c w =>
    obtain ⟨first, others⟩ := List.forall_mem_cons.1 blank
    have none : runs w = [] := by
      rw [← List.append_nil w, runs_append_of_blank others]
      rfl
    rw [runs_append_cons first, none, List.append_nil]

theorem runs_intercalate (nonempty : w ≠ []) (blank : ∀ c ∈ w, isBlank c = true) {fs : List (List Char)}
    (solid : ∀ f ∈ fs, f ≠ [] ∧ ∀ c ∈ f, isBlank c = false) : runs (w.intercalate fs) = fs := by
  induction fs with
  | nil => rfl
  | cons f fs ih =>
    obtain ⟨⟨present, free⟩, others⟩ := List.forall_mem_cons.1 solid
    have first : runs f = [f] := by rw [runs_of_free free, if_neg present]
    by_cases last : fs = []
    · rw [last, List.intercalate_singleton, first]
    · obtain ⟨c, w, rfl⟩ := List.exists_cons_of_ne_nil nonempty
      obtain ⟨here, later⟩ := List.forall_mem_cons.1 blank
      rw [List.intercalate_cons_of_ne_nil last, List.append_assoc, List.cons_append, runs_append_cons here,
        runs_append_of_blank later, ih others, first, List.singleton_append]

theorem runs_dropWhile (s : List Char) : runs (s.dropWhile isBlank) = runs s := by
  have blank : ∀ c ∈ s.takeWhile isBlank, isBlank c = true := List.all_eq_true.1 List.all_takeWhile
  rw [← runs_append_of_blank blank (s.dropWhile isBlank), List.takeWhile_append_dropWhile]

theorem runs_dropWhile_reverse (s : List Char) : runs (s.reverse.dropWhile isBlank).reverse = runs s := by
  have blank : ∀ c ∈ (s.reverse.takeWhile isBlank).reverse, isBlank c = true := by
    intro c mem
    exact List.all_eq_true.1 List.all_takeWhile c (List.mem_reverse.1 mem)
  rw [← runs_append_blank blank, ← List.reverse_append, List.takeWhile_append_dropWhile, List.reverse_reverse]

end Runs

/-- The bounds of all words of `s` in their order, and the words between them. -/
structure Spans (s : List Char) (spans : List (Nat × Nat)) : Prop where
  ordered : spans.Pairwise fun a b => a.2 < b.1
  mem_iff : ∀ r, r ∈ spans ↔ IsWord s r.1 r.2
  runs_eq : runs s = spans.map fun r => (s.take r.2).drop r.1

namespace Spans

variable {s front rest : List Char}

theorem of_free (free : ∀ c ∈ s, isBlank c = false) : Spans s (if s = [] then [] else [(0, s.length)]) := by
  by_cases empty : s = []
  · subst empty
    refine ⟨.nil, fun r => ?_, rfl⟩
    simp [isWord_of_free free]
  · rw [if_neg empty]
    refine ⟨List.pairwise_singleton _ _, fun r => ?_, ?_⟩
    · rw [isWord_of_free free, List.mem_singleton, Prod.ext_iff]
      simp [empty]
    · rw [runs_of_free free, if_neg empty, List.map_singleton, List.take_length, List.drop_zero]

theorem append {c : Char} (blank : isBlank c = true) {a b : List (Nat × Nat)} (ha : Spans front a)
    (hb : Spans rest b) :
    Spans (front ++ c :: rest) (a ++ b.map fun r => (front.length + 1 + r.1, front.length + 1 + r.2)) := by
  have inside : ∀ r ∈ a, r.2 ≤ front.length := fun r mem => ((ha.mem_iff r).1 mem).inside
  refine ⟨?_, ?_, ?_⟩
  · refine List.pairwise_append.2 ⟨ha.ordered, ?_, ?_⟩
    · exact List.pairwise_map.2 (hb.ordered.imp fun before => by omega)
    · intro r mem q moved
      obtain ⟨q, -, rfl⟩ := List.mem_map.1 moved
      have := inside r mem
      dsimp only
      omega
  · intro r
    rw [isWord_append_cons blank, List.mem_append, ha.mem_iff, List.mem_map]
    refine or_congr_right ⟨?_, ?_⟩
    · rintro ⟨q, mem, rfl⟩
      exact ⟨q.1, q.2, rfl, rfl, (hb.mem_iff q).1 mem⟩
    · rintro ⟨lo, hi, first, second, word⟩
      exact ⟨(lo, hi), (hb.mem_iff _).2 word, Prod.ext first.symm second.symm⟩
  · rw [runs_append_cons blank, ha.runs_eq, hb.runs_eq, List.map_append, List.map_map]
    congr 1
    · refine List.map_congr_left fun r mem => ?_
      rw [List.take_append_of_le_length (inside r mem)]
    · refine List.map_congr_left fun r _ => ?_
      have parts : front ++ c :: rest = (front ++ [c]) ++ rest := by simp
      have size : front.length + 1 = (front ++ [c]).length := by simp
      rw [Function.comp_apply, parts, size, List.take_length_add_append, List.drop_length_add_append]

end Spans

/-- Every text has its spans, by induction on the length, since a blank cuts the text in two. -/
theorem exists_spans (s : List Char) : ∃ spans, Spans s spans := by
  induction size : s.length using Nat.strongRecOn generalizing s with
  | ind n ih =>
    by_cases free : ∀ c ∈ s, isBlank c = false
    · exact ⟨_, .of_free free⟩
    · obtain ⟨c, mem, blank⟩ : ∃ c ∈ s, isBlank c = true := by simpa using free
      obtain ⟨front, rest, rfl⟩ := List.append_of_mem mem
      rw [List.length_append, List.length_cons] at size
      obtain ⟨a, ha⟩ := ih front.length (by omega) front rfl
      obtain ⟨b, hb⟩ := ih rest.length (by omega) rest rfl
      exact ⟨_, ha.append blank hb⟩

/-- Splitting without a separator gives the words of a text, all of them and in their order. Stripping blanks from
either end or both changes none of them. Fields without blanks, joined by blanks, come back, whatever blanks are added
at the ends. -/
theorem split_gives_words :
    (∀ t : Text, ∃ spans : List (Nat × Nat), spans.Pairwise (fun a b => a.2 < b.1) ∧
      (∀ r, r ∈ spans ↔ IsWord t.chars r.1 r.2) ∧ t.split none = .ok (spans.map fun r => ⟨t.between r.1 r.2⟩)) ∧
    (∀ q ∈ [TextQuery.strip, .stripLeft, .stripRight], ∀ (t : Text) (s : Store), ∃ u : Text,
      exec (q.run t []) s = (.ok (.text u), s) ∧ u.split none = t.split none) ∧
    ∀ (fs : List Text) (sep before after : Text),
      (∀ f ∈ fs, f.isEmpty = false ∧ ∀ c ∈ f.chars, c ∉ [' ', '\t', '\n']) →
      sep.isEmpty = false → (∀ c ∈ sep.chars, c ∈ [' ', '\t', '\n']) →
      (∀ c ∈ before.chars, c ∈ [' ', '\t', '\n']) → (∀ c ∈ after.chars, c ∈ [' ', '\t', '\n']) →
      ∃ t, (∀ s : Store, (exec (Run.join sep (.list (fs.map .str))) s).1 = .ok t) ∧
        (⟨before.chars ++ t.chars ++ after.chars⟩ : Text).split none = .ok fs := by
  refine ⟨?_, ?_, ?_⟩
  · intro t
    obtain ⟨spans, ordered, mem_iff, runs_eq⟩ := exists_spans t.chars
    refine ⟨spans, ordered, mem_iff, ?_⟩
    rw [split_none, runs_eq, List.map_map]
    rfl
  · have stripped (t : Text) : runs (t.stripLeft blanks).chars = runs t.chars := runs_dropWhile t.chars
    have stripped' (t : Text) : runs (t.stripRight blanks).chars = runs t.chars := runs_dropWhile_reverse t.chars
    simp only [List.forall_mem_cons, List.not_mem_nil, false_imp_iff, implies_true, and_true]
    refine ⟨fun t s => ⟨_, rfl, ?_⟩, fun t s => ⟨_, rfl, ?_⟩, fun t s => ⟨_, rfl, ?_⟩⟩
    · rw [split_none, split_none, Option.getD_none, strip, stripped', stripped]
    · rw [split_none, split_none, Option.getD_none, stripped]
    · rw [split_none, split_none, Option.getD_none, stripped']
  · simp only [← isBlank_iff, Bool.not_eq_true]
    intro fs sep before after solid nonempty blank leading trailing
    have nonempty : sep.chars ≠ [] := by simpa [isEmpty] using nonempty
    have solid : ∀ f ∈ fs.map chars, f ≠ [] ∧ ∀ c ∈ f, isBlank c = false := by
      rw [List.forall_mem_map]
      intro f mem
      exact ⟨by simpa [isEmpty] using (solid f mem).1, (solid f mem).2⟩
    refine ⟨sep.join fs, Run.exec_join_list sep fs, ?_⟩
    rw [split_none, runs_append_blank trailing, runs_append_of_blank leading, join,
      runs_intercalate nonempty blank solid, List.map_map]
    exact congrArg Except.ok (List.map_id fs)

namespace Verse

def words : List Text := [⟨['a', 'b']⟩, ⟨['c']⟩]

/-- Two blanks of different kinds. -/
def gap : Text := ⟨[' ', '\t']⟩

/-- The words with the blanks between them, a newline before them and a space behind. -/
def text : Text := ⟨['\n', 'a', 'b', ' ', '\t', 'c', ' ']⟩

end Verse

/-- Splitting finds the words of the text, stripping it first changes nothing, and the text is one that the words
come back from. -/
theorem verse_split :
    (∃ spans : List (Nat × Nat), (∀ r, r ∈ spans ↔ IsWord Verse.text.chars r.1 r.2) ∧
      Verse.words = spans.map fun r => ⟨Verse.text.between r.1 r.2⟩) ∧
    (∃ u : Text, exec (TextQuery.strip.run Verse.text []) .empty = (.ok (.text u), .empty) ∧
      u.split none = .ok Verse.words) ∧
    ∃ t, (exec (Run.join Verse.gap (.list (Verse.words.map .str))) .empty).1 = .ok t ∧
      (⟨['\n'] ++ t.chars ++ [' ']⟩ : Text).split none = .ok Verse.words := by
  obtain ⟨found, stripped, joined⟩ := split_gives_words
  obtain ⟨spans, -, mem_iff, split⟩ := found Verse.text
  obtain ⟨u, run, same⟩ := stripped .strip List.mem_cons_self Verse.text .empty
  obtain ⟨t, done, back⟩ := joined Verse.words Verse.gap ⟨['\n']⟩ ⟨[' ']⟩ (by simp [Verse.words, isEmpty]) rfl
    (by simp [Verse.gap]) (by simp) (by simp)
  exact ⟨⟨spans, mem_iff, Except.ok.inj split⟩, ⟨u, run, same⟩, t, done .empty, back⟩

end DynamicValues.Text
