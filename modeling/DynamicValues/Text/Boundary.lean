import DynamicValues.Text.Basic

/-!
Texts in bytes. A character takes one to four bytes, and a text is cut at offsets that count bytes. It can be cut
only between characters: a boundary is an offset at which this can be done.
-/

set_option autoImplicit false

namespace DynamicValues.Text

/-- The number of bytes that characters take. -/
def byteSize : List Char → Nat
  | [] => 0
  | c :: s => c.utf8Size + byteSize s

@[simp] theorem byteSize_append (s t : List Char) : byteSize (s ++ t) = byteSize s + byteSize t := by
  induction s with
  | nil => simp [byteSize]
  | cons c s ih => simp [byteSize, ih, Nat.add_assoc]

theorem byteSize_eq_zero {s : List Char} (h : byteSize s = 0) : s = [] := by
  cases s with
  | nil => rfl
  | cons c s =>
    have := c.utf8Size_pos
    simp only [byteSize] at h
    omega

/-- Of two beginnings of a text, the one with fewer bytes is a beginning of the other. -/
theorem isPrefix_of_byteSize_le {s x y : List Char} (hx : x <+: s) (hy : y <+: s) (h : byteSize x ≤ byteSize y) :
    x <+: y := by
  rcases List.prefix_or_prefix_of_prefix hx hy with shorter | ⟨z, rfl⟩
  · exact shorter
  · have nothing : z = [] := byteSize_eq_zero (by simp only [byteSize_append] at h; omega)
    exact ⟨[], by rw [nothing, List.append_nil, List.append_nil]⟩

/-- What stands before and after a byte offset. There is nothing inside a character, nor past the end. -/
def cutAt? : List Char → Nat → Option (List Char × List Char)
  | s, 0 => some ([], s)
  | [], _ + 1 => none
  | c :: s, n + 1 =>
    if c.utf8Size ≤ n + 1 then
      (cutAt? s (n + 1 - c.utf8Size)).map fun (before, after) => (c :: before, after)
    else none

theorem cutAt?_append (before after : List Char) :
    cutAt? (before ++ after) (byteSize before) = some (before, after) := by
  induction before with
  | nil => simp [byteSize, cutAt?]
  | cons c before ih =>
    obtain ⟨n, size⟩ : ∃ n, byteSize (c :: before) = n + 1 :=
      Nat.exists_eq_succ_of_ne_zero fun h => List.cons_ne_nil _ _ (byteSize_eq_zero h)
    have rest : n + 1 - c.utf8Size = byteSize before := by
      simp only [byteSize] at size
      omega
    have fits : c.utf8Size ≤ n + 1 := by
      simp only [byteSize] at size
      omega
    rw [List.cons_append, size, cutAt?, if_pos fits, rest, ih, Option.map_some]

theorem eq_of_cutAt? {s before after : List Char} {n : Nat} (h : cutAt? s n = some (before, after)) :
    s = before ++ after ∧ n = byteSize before := by
  induction s generalizing n before with
  | nil =>
    cases n with
    | zero =>
      cases h
      exact ⟨rfl, rfl⟩
    | succ n => cases h
  | cons c s ih =>
    cases n with
    | zero =>
      cases h
      exact ⟨rfl, rfl⟩
    | succ n =>
      rw [cutAt?] at h
      split at h
      · obtain ⟨⟨b, a⟩, cut, pair⟩ := Option.map_eq_some_iff.1 h
        cases pair
        obtain ⟨split, size⟩ := ih cut
        refine ⟨congrArg (c :: ·) split, ?_⟩
        rw [byteSize]
        omega
      · cases h

/-- A byte offset at which the characters can be cut. -/
structure Boundary (s : List Char) where
  offset : Nat
  valid : (cutAt? s offset).isSome

namespace Boundary

variable {s : List Char}

def cut (b : Boundary s) : List Char × List Char := (cutAt? s b.offset).get b.valid

def before (b : Boundary s) : List Char := b.cut.1

def rest (b : Boundary s) : List Char := b.cut.2

theorem eq_append (b : Boundary s) : s = b.before ++ b.rest :=
  (eq_of_cutAt? (Option.some_get b.valid).symm).1

theorem offset_eq (b : Boundary s) : b.offset = byteSize b.before :=
  (eq_of_cutAt? (Option.some_get b.valid).symm).2

theorem isSome_cutAt? {x y : List Char} (split : s = x ++ y) {n : Nat} (size : n = byteSize x) :
    (cutAt? s n).isSome := by
  rw [split, size, cutAt?_append, Option.isSome_some]

/-- A boundary is known by the number of bytes before it. -/
theorem cut_eq (b : Boundary s) {x y : List Char} (split : s = x ++ y) (size : b.offset = byteSize x) :
    b.before = x ∧ b.rest = y := by
  have found := cutAt?_append x y
  rw [← split, ← size] at found
  have cut : b.cut = (x, y) := Option.get_of_eq_some b.valid found
  exact ⟨congrArg Prod.fst cut, congrArg Prod.snd cut⟩

def start (s : List Char) : Boundary s := ⟨0, isSome_cutAt? (List.nil_append s).symm rfl⟩

theorem cut_start (s : List Char) : (start s).before = [] ∧ (start s).rest = s :=
  (start s).cut_eq (List.nil_append s).symm rfl

theorem eq_append_of_rest {b : Boundary s} {c : Char} {after : List Char} (h : b.rest = c :: after) :
    s = b.before ++ [c] ++ after ∧ b.offset + c.utf8Size = byteSize (b.before ++ [c]) := by
  constructor
  · rw [List.append_assoc, List.singleton_append, ← h]
    exact b.eq_append
  · rw [byteSize_append, b.offset_eq]
    rfl

/-- The boundary one character further, if there is one. -/
def next? (b : Boundary s) : Option (Boundary s) :=
  match rest : b.rest with
  | [] => none
  | c :: _ =>
    have moved := eq_append_of_rest rest
    some ⟨b.offset + c.utf8Size, isSome_cutAt? moved.1 moved.2⟩

theorem next?_eq_none {b : Boundary s} (h : b.rest = []) : b.next? = none := by
  unfold next?
  split
  · rfl
  · next rest => cases h.symm.trans rest

theorem next?_eq_some {b : Boundary s} {c : Char} {after : List Char} (h : b.rest = c :: after) :
    ∃ e, b.next? = some e ∧ e.before = b.before ++ [c] ∧ e.rest = after := by
  unfold next?
  split
  · next rest => cases h.symm.trans rest
  · next rest =>
    cases h.symm.trans rest
    have moved := eq_append_of_rest h
    exact ⟨_, rfl, cut_eq _ moved.1 moved.2⟩

/-- The characters between two boundaries. -/
def between (lo hi : Boundary s) (ordered : lo.offset ≤ hi.offset) : List Char :=
  have valid : (cutAt? hi.before lo.offset).isSome := by
    have sizes : byteSize lo.before ≤ byteSize hi.before := by rwa [← lo.offset_eq, ← hi.offset_eq]
    obtain ⟨y, split⟩ := isPrefix_of_byteSize_le ⟨_, lo.eq_append.symm⟩ ⟨_, hi.eq_append.symm⟩ sizes
    exact isSome_cutAt? split.symm lo.offset_eq
  (⟨lo.offset, valid⟩ : Boundary hi.before).rest

end Boundary

/-- The characters, each with the offset at which it begins if the first one begins at `offset`. -/
def charIndices (offset : Nat) : List Char → List (Nat × Char)
  | [] => []
  | c :: s => (offset, c) :: charIndices (offset + c.utf8Size) s

/-- The offset at which the character at position `n` begins, or else the end. -/
def byteOffset (s : List Char) (n : Nat) : Nat := (charIndices 0 s)[n]?.elim (byteSize s) Prod.fst

theorem getElem?_charIndices (s : List Char) (offset n : Nat) :
    (charIndices offset s)[n]?.elim (offset + byteSize s) Prod.fst = offset + byteSize (s.take n) := by
  induction s generalizing offset n with
  | nil => simp [charIndices, byteSize]
  | cons c s ih =>
    cases n with
    | zero => simp [charIndices, byteSize]
    | succ n =>
      have later := ih (offset + c.utf8Size) n
      simp only [Nat.add_assoc] at later
      simpa [charIndices, byteSize] using later

theorem byteOffset_eq (s : List Char) (n : Nat) : byteOffset s n = byteSize (s.take n) := by
  have indexed := getElem?_charIndices s 0 n
  rwa [Nat.zero_add, Nat.zero_add] at indexed

theorem byteOffset_le {m n : Nat} (h : m ≤ n) (s : List Char) : byteOffset s m ≤ byteOffset s n := by
  obtain ⟨z, split⟩ : s.take m <+: s.take n := List.take_prefix_take_left h
  rw [byteOffset_eq, byteOffset_eq, ← split, byteSize_append]
  exact Nat.le_add_right _ _

/-- The boundary before the character at position `n`, or at the end. -/
def Boundary.ofPosition (s : List Char) (n : Nat) : Boundary s :=
  ⟨byteOffset s n, isSome_cutAt? (List.take_append_drop n s).symm (byteOffset_eq s n)⟩

/-- The characters at the positions from `lo` up to and without `hi`, cut out by their offsets. -/
def charRange (t : Text) (lo hi : Nat) (ordered : lo ≤ hi) : List Char :=
  (Boundary.ofPosition t.chars lo).between (.ofPosition t.chars hi) (byteOffset_le ordered t.chars)

end DynamicValues.Text
