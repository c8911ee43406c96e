import DynamicValues.Proofs.Json.Grammar
import Mathlib.Data.List.TakeDrop

/-!
Cutting a JSON text into its tokens. A text is cut into the tokens that it spells, and one that spells none is
refused.
-/

set_option autoImplicit false

namespace DynamicValues
namespace Json

/-! Numbers. -/

theorem span_append {p : Char → Bool} {front rest : List Char} (all : ∀ c ∈ front, p c = true)
    (stop : ∀ c ∈ rest.head?, p c = false) : (front ++ rest).span p = (front, rest) := by
  rw [List.span_eq_takeWhile_dropWhile, List.takeWhile_append_of_pos all, List.dropWhile_append_of_pos all]
  cases rest with
  | nil => simp
  | cons c rest =>
    have fails : p c = false := stop c rfl
    simp [fails]

theorem ne_of_isDigit {c other : Char} (digit : c.isDigit = true) (mark : other.isDigit = false) :
    c ≠ other := by
  rintro rfl
  rw [mark] at digit
  contradiction

def isSign (c : Char) : Bool := c = '+' ∨ c = '-'

namespace Numeral

def cutSign : List Char → Bool × List Char
  | '-' :: cs => (true, cs)
  | cs => (false, cs)

def cutFraction : List Char → List Char × List Char
  | '.' :: cs => cs.span Char.isDigit
  | cs => ([], cs)

def cutExponent : List Char → Option Exponent
  | [] => none
  | mark :: cs => some ⟨mark, (cs.span isSign).1, (cs.span isSign).2⟩

def cut (cs : List Char) : Numeral :=
  let (negative, cs) := cutSign cs
  let (whole, cs) := cs.span Char.isDigit
  let (fraction, cs) := cutFraction cs
  ⟨negative, whole, fraction, cutExponent cs⟩

def read? (cs : List Char) : Option Numeral :=
  if (cut cs).Valid ∧ (cut cs).text = cs then some (cut cs) else none

theorem cutSign_append (negative : Bool) {rest : List Char} (stop : ∀ c ∈ rest.head?, c ≠ '-') :
    cutSign ((if negative then ['-'] else []) ++ rest) = (negative, rest) := by
  cases negative with
  | true => rfl
  | false =>
    cases rest with
    | nil => rfl
    | cons c rest =>
      exact cutSign.eq_2 _ fun _ same => stop c rfl (List.cons.inj same).1

theorem cutFraction_append {fraction rest : List Char} (digits : ∀ c ∈ fraction, c.isDigit = true)
    (stop : ∀ c ∈ rest.head?, c.isDigit = false ∧ c ≠ '.') :
    cutFraction ((if fraction = [] then [] else '.' :: fraction) ++ rest) = (fraction, rest) := by
  split
  · next empty =>
    subst empty
    cases rest with
    | nil => rfl
    | cons c rest =>
      exact cutFraction.eq_2 _ fun _ same => (stop c rfl).2 (List.cons.inj same).1
  · exact span_append digits fun c head => (stop c head).1

theorem cutExponent_text {exponent : Option Exponent} (valid : ∀ e ∈ exponent, e.Valid) :
    cutExponent (exponent.elim [] Exponent.text) = exponent := by
  cases exponent with
  | none => rfl
  | some e =>
    obtain ⟨-, sign, -, digits⟩ := valid e rfl
    have signs : ∀ c ∈ e.sign, isSign c = true := by
      rcases sign with sign | sign | sign <;> simp [sign, isSign]
    have stop : ∀ c ∈ e.digits.head?, isSign c = false := by
      intro c head
      have digit := digits c (List.mem_of_mem_head? head)
      simp [isSign, ne_of_isDigit digit]
    have parts : (e.sign ++ e.digits).span isSign = (e.sign, e.digits) := span_append signs stop
    simp only [Option.elim_some, Exponent.text, cutExponent, parts]

theorem Valid.exponent_head {n : Numeral} (valid : n.Valid) :
    ∀ c ∈ (n.exponent.elim [] Exponent.text).head?, c = 'e' ∨ c = 'E' := by
  intro c head
  cases found : n.exponent with
  | none => simp [found] at head
  | some e =>
    obtain rfl : e.mark = c := by simpa [found, Exponent.text] using head
    exact (valid.exponent e found).mark

theorem Valid.rest_head {n : Numeral} (valid : n.Valid) :
    ∀ c ∈ ((if n.fraction = [] then [] else '.' :: n.fraction) ++ n.exponent.elim [] Exponent.text).head?,
      c.isDigit = false := by
  intro c head
  split at head
  · rcases valid.exponent_head c head with rfl | rfl <;> rfl
  · obtain rfl : '.' = c := by simpa using head
    rfl

/-- The parts of a number can be told apart. -/
theorem cut_text {n : Numeral} (valid : n.Valid) : cut n.text = n := by
  have sign : ∀ c ∈ (n.whole ++ ((if n.fraction = [] then [] else '.' :: n.fraction) ++
      n.exponent.elim [] Exponent.text)).head?, c ≠ '-' := by
    intro c head
    rw [List.head?_append_of_ne_nil _ valid.nonempty] at head
    exact ne_of_isDigit (valid.whole c (List.mem_of_mem_head? head)) rfl
  have stop : ∀ c ∈ (n.exponent.elim [] Exponent.text).head?, c.isDigit = false ∧ c ≠ '.' := by
    intro c head
    rcases valid.exponent_head c head with rfl | rfl <;> decide
  rw [text, List.append_assoc, List.append_assoc, cut, cutSign_append _ sign]
  dsimp only
  rw [span_append valid.whole valid.rest_head]
  dsimp only
  rw [cutFraction_append valid.fraction stop, cutExponent_text valid.exponent]

theorem read?_text {n : Numeral} (valid : n.Valid) : read? n.text = some n := by
  rw [read?, cut_text valid, if_pos ⟨valid, rfl⟩]

theorem of_read? {cs : List Char} {n : Numeral} (found : read? cs = some n) : n.Valid ∧ n.text = cs := by
  unfold read? at found
  split at found
  · next both =>
    cases found
    exact both
  · contradiction

end Numeral

/-! Strings. -/

/-- The character of an escaped unit, or of two that are a pair. -/
def escaped? (cs : List Char) : Option (Char × List Char) := do
  let unit ← unit? (cs.take 4)
  if unit.isValidChar then return (Char.ofNat unit, cs.drop 4)
  let low ← unit? ((cs.drop 6).take 4)
  if (cs.drop 4).take 2 = ['\\', 'u'] ∧ Paired unit low then
    return (Char.ofNat (joined unit low), cs.drop 10)
  none

def character? : List Char → Option (Char × List Char)
  | '\\' :: mark :: cs => if mark = 'u' then escaped? cs else (short? mark).map (·, cs)
  | c :: cs => if ' ' ≤ c ∧ c ≠ '"' ∧ c ≠ '\\' then some (c, cs) else none
  | [] => none

theorem toNat_ofNat {n : Nat} (valid : n.isValidChar) : (Char.ofNat n).toNat = n := by
  rw [Char.ofNat, dif_pos valid]
  rfl

theorem Paired.isValidChar_joined {high low : Nat} (pair : Paired high low) :
    (joined high low).isValidChar := by
  obtain ⟨_, _, _, _⟩ := pair
  apply Or.inr
  unfold joined
  omega

theorem Paired.not_isValidChar {high low : Nat} (pair : Paired high low) : ¬high.isValidChar := by
  obtain ⟨_, _, _, _⟩ := pair
  unfold Nat.isValidChar
  omega

theorem length_of_unit? {digits : List Char} {u : Nat} (found : unit? digits = some u) :
    digits.length = 4 := by
  unfold unit? at found
  split at found
  · assumption
  · contradiction

theorem spelled_of_escaped? {cs rest : List Char} {c : Char} (found : escaped? cs = some (c, rest)) :
    ∃ spelling, Spelled c spelling ∧ '\\' :: 'u' :: cs = spelling ++ rest := by
  simp only [escaped?, Option.bind_eq_bind, Option.bind_eq_some_iff] at found
  obtain ⟨unit, first, found⟩ := found
  split at found
  · next valid =>
    obtain ⟨rfl, rfl⟩ : Char.ofNat unit = c ∧ cs.drop 4 = rest := by simpa using found
    rw [← toNat_ofNat valid] at first
    exact ⟨_, .unit first, by simp⟩
  · obtain ⟨low, second, found⟩ := Option.bind_eq_some_iff.1 found
    split at found
    · next both =>
      obtain ⟨rfl, rfl⟩ : Char.ofNat (joined unit low) = c ∧ cs.drop 10 = rest := by simpa using found
      refine ⟨_, .pair first second both.2 (toNat_ofNat both.2.isValidChar_joined).symm, ?_⟩
      have split : cs = cs.take 4 ++ ((cs.drop 4).take 2 ++ ((cs.drop 6).take 4 ++ cs.drop 10)) := by
        have inner : cs.drop 6 = (cs.drop 4).drop 2 := by rw [List.drop_drop]
        have last : cs.drop 10 = (cs.drop 6).drop 4 := by rw [List.drop_drop]
        rw [last, List.take_append_drop, inner, List.take_append_drop, List.take_append_drop]
      rw [both.1] at split
      simpa using split
    · contradiction

theorem spelled_of_character? {cs rest : List Char} {c : Char} (found : character? cs = some (c, rest)) :
    ∃ spelling, Spelled c spelling ∧ cs = spelling ++ rest := by
  unfold character? at found
  split at found
  · next mark cs =>
    split at found
    · next unit =>
      subst unit
      exact spelled_of_escaped? found
    · obtain ⟨_, short, same⟩ := Option.map_eq_some_iff.1 found
      cases same
      exact ⟨_, .short short, rfl⟩
  · split at found
    · next plain =>
      cases found
      exact ⟨_, .plain plain.1 plain.2.1 plain.2.2, rfl⟩
    · contradiction
  · contradiction

theorem Spelled.ne_nil {c : Char} {spelling : List Char} (spelled : Spelled c spelling) : spelling ≠ [] := by
  cases spelled <;> simp

theorem length_lt_of_character? {cs rest : List Char} {c : Char} (found : character? cs = some (c, rest)) :
    rest.length < cs.length := by
  obtain ⟨spelling, spelled, rfl⟩ := spelled_of_character? found
  have positive := List.length_pos_iff.2 spelled.ne_nil
  rw [List.length_append]
  omega

/-- The text up to the closing quote, and what follows it. -/
def string? (cs : List Char) : Option (List Char × List Char) :=
  if cs.head? = some '"' then some ([], cs.tail)
  else
    match found : character? cs with
    | none => none
    | some (c, rest) =>
      have := length_lt_of_character? found
      (string? rest).map fun r => (c :: r.1, r.2)
termination_by cs.length

theorem string?_of_character? {cs rest : List Char} {c : Char} (quote : cs.head? ≠ some '"')
    (found : character? cs = some (c, rest)) :
    string? cs = (string? rest).map fun r => (c :: r.1, r.2) := by
  rw [string?, if_neg quote]
  split
  · next none => rw [none] at found; contradiction
  · next some => rw [some] at found; cases found; rfl

theorem escaped?_unit {c : Char} {digits : List Char} (first : unit? digits = some c.toNat)
    (rest : List Char) : escaped? (digits ++ rest) = some (c, rest) := by
  have four := length_of_unit? first
  have valid : c.toNat.isValidChar := c.valid
  simp [escaped?, List.take_left' four, List.drop_left' four, first, valid]

theorem escaped?_pair {c : Char} {high low : Nat} {one two : List Char} (first : unit? one = some high)
    (second : unit? two = some low) (pair : Paired high low) (same : joined high low = c.toNat)
    (rest : List Char) :
    escaped? (one ++ '\\' :: 'u' :: (two ++ rest)) = some (c, rest) := by
  have four := length_of_unit? first
  have four' := length_of_unit? second
  have six : (one ++ '\\' :: 'u' :: (two ++ rest)).drop 6 = two ++ rest := by
    rw [← List.drop_drop (i := 2) (j := 4), List.drop_left' four]
    rfl
  have ten : (one ++ '\\' :: 'u' :: (two ++ rest)).drop 10 = rest := by
    rw [← List.drop_drop (i := 4) (j := 6), six, List.drop_left' four']
  simp [escaped?, List.take_left' four, List.drop_left' four, List.take_left' four', first, second, six, ten,
    pair, pair.not_isValidChar, same]

theorem character?_append {c : Char} {spelling : List Char} (spelled : Spelled c spelling)
    (rest : List Char) : character? (spelling ++ rest) = some (c, rest) := by
  cases spelled with
  | plain above quote backslash =>
    rw [List.singleton_append, character?.eq_2 c rest fun _ _ same => absurd same backslash,
      if_pos ⟨above, quote, backslash⟩]
  | @short mark short =>
    have other : mark ≠ 'u' := by
      rintro rfl
      contradiction
    rw [List.cons_append, List.cons_append, List.nil_append, character?, if_neg other, short]
    rfl
  | unit first => exact escaped?_unit first rest
  | pair first second pair same =>
    rw [List.cons_append, List.cons_append, List.append_assoc]
    exact escaped?_pair first second pair same rest

/-- A character's spelling does not begin like the end of a text. -/
theorem Spelled.head_ne {c : Char} {spelling : List Char} (spelled : Spelled c spelling)
    (rest : List Char) : (spelling ++ rest).head? ≠ some '"' := by
  cases spelled with
  | plain _ quote _ => simpa using quote
  | short _ => simp
  | unit _ => simp
  | pair _ _ _ _ => simp

theorem string?_append {t inside : List Char} (quoted : Quoted t inside) (rest : List Char) :
    string? (inside ++ '"' :: rest) = some (t, rest) := by
  induction quoted with
  | nil => rw [List.nil_append, string?, if_pos (List.head?_cons ..), List.tail_cons]
  | cons spelled _ ih =>
    rw [List.append_assoc, string?_of_character? (spelled.head_ne _) (character?_append spelled _), ih]
    rfl

theorem quoted_of_string? {cs t rest : List Char} (found : string? cs = some (t, rest)) :
    ∃ inside, Quoted t inside ∧ cs = inside ++ '"' :: rest := by
  fun_induction string? cs generalizing t with
  | case1 cs quote =>
    obtain ⟨after, rfl⟩ := List.head?_eq_some_iff.1 quote
    cases found
    exact ⟨[], .nil, rfl⟩
  | case2 => contradiction
  | case3 cs _ c after first _ ih =>
    obtain ⟨r, read, same⟩ := Option.map_eq_some_iff.1 found
    cases same
    obtain ⟨spelling, spelled, rfl⟩ := spelled_of_character? first
    obtain ⟨inside, quoted, rfl⟩ := ih read
    exact ⟨_, .cons spelled quoted, (List.append_assoc ..).symm⟩

theorem length_lt_of_string? {cs t rest : List Char} (found : string? cs = some (t, rest)) :
    rest.length < cs.length := by
  obtain ⟨inside, -, rfl⟩ := quoted_of_string? found
  rw [List.length_append, List.length_cons]
  omega

/-! Tokens. -/

def scalar? (word : List Char) : Option Host :=
  if word = "null".toList then some .null
  else if word = "true".toList then some (.bool true)
  else if word = "false".toList then some (.bool false)
  else (Numeral.read? word).bind Numeral.host?

def lex (cs : List Char) : Option (List Token) :=
  match cs with
  | [] => some []
  | c :: cs =>
    if isBlank c then lex cs
    else if c = '"' then
      match found : string? cs with
      | none => none
      | some (t, rest) =>
        have := length_lt_of_string? found
        (lex rest).map (.text ⟨t⟩ :: ·)
    else
      match mark? c with
      | some t => (lex cs).map (t :: ·)
      | none =>
        have := (List.dropWhile_sublist (l := cs) isWordChar).length_le
        (scalar? (c :: cs.takeWhile isWordChar)).bind fun h =>
          (lex (cs.dropWhile isWordChar)).map (.scalar h :: ·)
termination_by cs.length

theorem lex_blank {c : Char} (blank : isBlank c = true) (cs : List Char) : lex (c :: cs) = lex cs := by
  rw [lex, if_pos blank]

theorem lex_quoted {cs t rest : List Char} (found : string? cs = some (t, rest)) :
    lex ('"' :: cs) = (lex rest).map (.text ⟨t⟩ :: ·) := by
  rw [lex, if_neg (by decide), if_pos rfl]
  split
  · next none => rw [none] at found; contradiction
  · next some => rw [some] at found; cases found; rfl

theorem lex_mark {c : Char} {t : Token} (mark : mark? c = some t) (cs : List Char) :
    lex (c :: cs) = (lex cs).map (t :: ·) := by
  have other : isBlank c = false ∧ c ≠ '"' := by
    unfold mark? at mark
    split at mark
    all_goals first | contradiction | decide
  rw [lex, if_neg (by simp [other.1]), if_neg other.2, mark]

theorem lex_word {c : Char} {cs rest : List Char} {h : Host} (word : ∀ d ∈ c :: cs, isWordChar d = true)
    (ends : Ends rest) (scalar : scalar? (c :: cs) = some h) :
    lex (c :: (cs ++ rest)) = (lex rest).map (.scalar h :: ·) := by
  obtain ⟨first, others⟩ := List.forall_mem_cons.1 word
  have blank : isBlank c = false := by
    apply Bool.eq_false_iff.2
    intro blank
    rcases of_decide_eq_true blank with rfl | rfl | rfl | rfl <;> contradiction
  have quote : c ≠ '"' := by
    rintro rfl
    contradiction
  have mark : mark? c = none := by
    unfold mark?
    split
    all_goals first | rfl | contradiction
  have parts := span_append others ends
  rw [List.span_eq_takeWhile_dropWhile] at parts
  obtain ⟨front, after⟩ := Prod.mk.inj parts
  rw [lex, if_neg (by simp [blank]), if_neg quote, mark]
  simp only [front, after, scalar, Option.bind_some]

theorem isWordChar_of_isDigit {c : Char} (digit : c.isDigit = true) : isWordChar c = true := by
  simp [isWordChar, Char.isAlphanum, digit]

theorem Exponent.Valid.isWordChar {e : Exponent} (valid : e.Valid) : ∀ c ∈ e.text, isWordChar c = true := by
  intro c mem
  rw [Exponent.text, List.mem_cons, List.mem_append] at mem
  rcases mem with rfl | mem | mem
  · rcases valid.mark with mark | mark <;> rw [mark] <;> rfl
  · rcases valid.sign with sign | sign | sign <;> rw [sign] at mem
    · contradiction
    · obtain rfl := List.mem_singleton.1 mem; rfl
    · obtain rfl := List.mem_singleton.1 mem; rfl
  · exact isWordChar_of_isDigit (valid.digits c mem)

theorem Numeral.Valid.isWordChar {n : Numeral} (valid : n.Valid) : ∀ c ∈ n.text, isWordChar c = true := by
  intro c mem
  simp only [Numeral.text, List.mem_append] at mem
  rcases mem with ((sign | whole) | fraction) | exponent
  · split at sign
    · obtain rfl := List.mem_singleton.1 sign; rfl
    · contradiction
  · exact isWordChar_of_isDigit (valid.whole c whole)
  · split at fraction
    · contradiction
    · rcases List.mem_cons.1 fraction with rfl | digit
      · rfl
      · exact isWordChar_of_isDigit (valid.fraction c digit)
  · cases found : n.exponent with
    | none => simp [found] at exponent
    | some e =>
      rw [found] at exponent
      exact (valid.exponent e found).isWordChar c exponent

/-- A number begins with its sign or a digit. -/
theorem Numeral.Valid.head {n : Numeral} (valid : n.Valid) :
    ∃ c rest, n.text = c :: rest ∧ (c = '-' ∨ c.isDigit = true) := by
  obtain ⟨c, whole, start⟩ := List.exists_cons_of_ne_nil valid.nonempty
  have digit : c.isDigit = true := valid.whole c (by rw [start]; exact List.mem_cons_self)
  cases sign : n.negative with
  | true =>
    have text : n.text = '-' :: n.text.tail := by simp [Numeral.text, sign]
    exact ⟨_, _, text, .inl rfl⟩
  | false =>
    have text : n.text = c :: n.text.tail := by simp [Numeral.text, sign, start]
    exact ⟨_, _, text, .inr digit⟩

theorem scalar?_text {n : Numeral} {h : Host} (valid : n.Valid) (host : n.host? = some h) :
    scalar? n.text = some h := by
  obtain ⟨c, rest, start, first⟩ := valid.head
  have other : ∀ word : List Char, ∀ d ∈ word.head?, d ≠ '-' ∧ d.isDigit = false → n.text ≠ word := by
    rintro word d head ⟨sign, digit⟩ rfl
    obtain rfl : c = d := by simpa [start] using head
    rcases first with minus | number
    · exact sign minus
    · exact ne_of_isDigit number digit rfl
  rw [scalar?, if_neg (other _ 'n' rfl (by decide)), if_neg (other _ 't' rfl (by decide)),
    if_neg (other _ 'f' rfl (by decide)), Numeral.read?_text valid]
  exact host

theorem Scalar.read {word : List Char} {h : Host} (scalar : Scalar word h) :
    (∃ c cs, word = c :: cs) ∧ (∀ c ∈ word, isWordChar c = true) ∧ scalar? word = some h := by
  cases scalar with
  | null => exact ⟨⟨_, _, rfl⟩, List.all_eq_true.1 rfl, rfl⟩
  | bool b => cases b <;> exact ⟨⟨_, _, rfl⟩, List.all_eq_true.1 rfl, rfl⟩
  | number valid host =>
    obtain ⟨c, cs, start, -⟩ := valid.head
    exact ⟨⟨c, cs, start⟩, valid.isWordChar, scalar?_text valid host⟩

theorem scalar_of_scalar? {word : List Char} {h : Host} (found : scalar? word = some h) : Scalar word h := by
  unfold scalar? at found
  split_ifs at found with null yes no
  · subst null
    cases found
    exact .null
  · subst yes
    cases found
    exact .bool true
  · subst no
    cases found
    exact .bool false
  · obtain ⟨n, read, host⟩ := Option.bind_eq_some_iff.1 found
    obtain ⟨valid, rfl⟩ := Numeral.of_read? read
    exact .number valid host

theorem ends_dropWhile (cs : List Char) : Ends (cs.dropWhile isWordChar) := by
  intro c head
  have stop := List.head?_dropWhile_not isWordChar cs
  rw [Option.mem_def.1 head] at stop
  exact stop

theorem lex_of_spells {text : List Char} {ts : List Token} (spells : Spells text ts) :
    lex text = some ts := by
  induction spells with
  | nil => rw [lex]
  | blank blank _ ih => rw [lex_blank blank, ih]
  | mark mark _ ih =>
    rw [lex_mark mark, ih]
    rfl
  | quoted quoted _ ih =>
    rw [lex_quoted (string?_append quoted _), ih]
    rfl
  | word scalar ends _ ih =>
    obtain ⟨⟨c, cs, rfl⟩, word, reads⟩ := scalar.read
    rw [List.cons_append, lex_word word ends reads, ih]
    rfl

theorem spells_of_lex {text : List Char} {ts : List Token} (found : lex text = some ts) : Spells text ts := by
  fun_induction lex text generalizing ts with
  | case1 =>
    cases found
    exact .nil
  | case2 c cs blank ih => exact .blank blank (ih found)
  | case3 => contradiction
  | case4 cs t rest string _ _ ih =>
    obtain ⟨us, cut, rfl⟩ := Option.map_eq_some_iff.1 found
    obtain ⟨inside, quoted, rfl⟩ := quoted_of_string? string
    exact .quoted quoted (ih cut)
  | case5 c cs _ _ t mark ih =>
    obtain ⟨us, cut, rfl⟩ := Option.map_eq_some_iff.1 found
    exact .mark mark (ih cut)
  | case6 c cs _ _ _ _ ih =>
    obtain ⟨h, read, found⟩ := Option.bind_eq_some_iff.1 found
    obtain ⟨us, cut, rfl⟩ := Option.map_eq_some_iff.1 found
    have spells := Spells.word (scalar_of_scalar? read) (ends_dropWhile cs) (ih cut)
    rwa [List.cons_append, List.takeWhile_append_dropWhile] at spells

/-- Cutting finds exactly the tokens that a text spells. -/
theorem lex_eq_some_iff {text : List Char} {ts : List Token} : lex text = some ts ↔ Spells text ts :=
  ⟨spells_of_lex, lex_of_spells⟩

end Json
end DynamicValues
