import DynamicValues.Proofs.Equality
import DynamicValues.Value.Hashing

/-!
Equal values have equal hashes, or fail to have one for the same cause, and no hash is `-1`. Numbers are
the point where the two could part: a word and a double that are equal reach their hash by different
tests of range, and the two zeros by different bits.
-/

set_option autoImplicit false

namespace DynamicValues

namespace Hash

open Binary64 (one)

theorem remap_ne (h : Int64) : remap h ≠ -1 := by
  unfold remap
  split
  · decide
  · assumption

theorem int_ne (n : Int64) : int n ≠ -1 := remap_ne n

theorem float_ne (x : Binary64) : float x ≠ -1 := by
  unfold float
  split
  · exact int_ne _
  · exact remap_ne _

theorem text_ne (cs : List Char) : text cs ≠ -1 := by
  cases cs with
  | nil => decide
  | cons c cs => exact remap_ne _

theorem sequence_ne (items : List Int64) (len : Nat) : sequence items len ≠ -1 := remap_ne _

/-- The test of range accepts the doubles that are words, although it compares with a double above the
greatest word. -/
theorem float_eq (x : Binary64) :
    float x = (Number.exactWord? x).elim (remap (low (x.bits ^^^ x.bits >>> 32).toInt64)) int := by
  have least : Binary64.ofInt Int64.minValue.toInt = Number.lowest := by decide +kernel
  have greatest : Binary64.ofInt Int64.maxValue.toInt = Number.limit := by decide +kernel
  unfold float Number.exactWord?
  rw [least, greatest]
  split <;> rfl

end Hash

namespace Number

def hash : Number → Int64
  | .int n => Hash.int n
  | .float x => Hash.float x

theorem hash_float_of_exactWord? {x : Binary64} {n : Int64} (h : exactWord? x = some n) :
    hash (.float x) = hash (.int n) := by
  change Hash.float x = Hash.int n
  rw [Hash.float_eq, h]
  rfl

/-- Doubles with the same place have the same hash: as a word, if they are one, and else because they are
the same double. -/
theorem hash_float_eq_of_units {x y : Binary64} (hx : x.isNaN = false) (hy : y.isNaN = false)
    (units : x.units = y.units) : hash (.float x) = hash (.float y) := by
  cases word : exactWord? x with
  | some n =>
    have word' : exactWord? y = some n := by
      rw [exactWord?_eq_some_iff] at word ⊢
      exact ⟨hy, units ▸ word.2⟩
    rw [hash_float_of_exactWord? word, hash_float_of_exactWord? word']
  | none =>
    have nonzero : x.units ≠ 0 := by
      intro zero
      have : exactWord? x = some 0 := exactWord?_eq_some_iff.2 ⟨hx, by simp [zero]⟩
      rw [word] at this
      cases this
    rw [Binary64.eq_of_units_eq units nonzero]

theorem hash_eq_of_place {a b : Number} {place : Int} (ha : a.units? = some place)
    (hb : b.units? = some place) : a.hash = b.hash := by
  rcases a with m | x <;> rcases b with n | y
  · have words : m.toInt = n.toInt :=
      Int.eq_of_mul_eq_mul_right one_pos.ne' (Option.some.inj (ha.trans hb.symm))
    rw [Int64.toInt_inj.1 words]
  · have exact : exactWord? y = some m :=
      exactWord?_eq_some_iff.2 (units?_float_eq_some_iff.1 (hb.trans ha.symm))
    exact (hash_float_of_exactWord? exact).symm
  · have exact : exactWord? x = some n :=
      exactWord?_eq_some_iff.2 (units?_float_eq_some_iff.1 (ha.trans hb.symm))
    exact hash_float_of_exactWord? exact
  · obtain ⟨hx, atX⟩ := units?_float_eq_some_iff.1 ha
    obtain ⟨hy, atY⟩ := units?_float_eq_some_iff.1 hb
    exact hash_float_eq_of_units hx hy (atX.trans atY.symm)

end Number

namespace Value

theorem hash_of_number {a : Value} {x : Number} (h : a.number? = some x) : a.hash = .ok x.hash := by
  cases a with
  | bool b =>
    cases h
    cases b <;> rfl
  | int n =>
    cases h
    rfl
  | float x =>
    cases h
    rfl
  | _ => cases h

theorem hashItems_eq_of_forall₂ {xs ys : List Value} (h : List.Forall₂ (fun x y => x.hash = y.hash) xs ys) :
    hashItems xs = hashItems ys := by
  induction h with
  | nil => rfl
  | cons head _ ih => rw [hashItems, hashItems, head, ih]

variable {w : World}

theorem hash_eq_of_beq {a b : Value} (ha : a.Sound w) (hb : b.Sound w) (h : (a == b) = true) :
    a.hash = b.hash := by
  induction a using induction_on_parts generalizing b with
  | step a ih =>
    cases same_of_beq h with
    | none => rfl
    | number hx hy atX atY => rw [hash_of_number hx, hash_of_number hy, Number.hash_eq_of_place atX atY]
    | text t => rfl
    | shared i xs ys => rw [items_eq_of_storage_eq ha hb]
    | @tuple i j xs ys items =>
      have hashes : List.Forall₂ (fun x y : Value => x.hash = y.hash) xs ys :=
        forall₂_imp_of_mem (fun x hx y hy same => ih x hx (ha.part hx) (hb.part hy) same) items
      rw [hash, hash, hashItems_eq_of_forall₂ hashes, items.length_eq]
    | list _ => rfl
    | dict _ _ => rfl
    | slice s => rfl
    | iter i => rfl

theorem exists_hash_eq_error {xs : List Value} {e : Error} (h : hashItems xs = .error e) :
    ∃ x ∈ xs, x.hash = .error e := by
  induction xs with
  | nil => cases h
  | cons x xs ih =>
    rw [hashItems] at h
    cases hx : x.hash with
    | error e' =>
      rw [hx] at h
      cases h
      exact ⟨x, by simp, hx⟩
    | ok n =>
      rw [hx] at h
      cases hxs : hashItems xs with
      | error e' =>
        rw [hxs] at h
        cases h
        obtain ⟨y, hy, failed⟩ := ih hxs
        exact ⟨y, List.mem_cons_of_mem _ hy, failed⟩
      | ok hashes =>
        rw [hxs] at h
        cases h

/-- A value either has a hash or holds one of a kind that has none. -/
theorem hash_cases (v : Value) :
    (∃ n, v.hash = .ok n) ∨ ∃ kind, v.hash = .error (.unhashable kind) := by
  induction v using induction_on_parts with
  | step v ih =>
    cases v with
    | tuple i xs =>
      rw [hash]
      cases hxs : hashItems xs with
      | ok hashes => exact .inl ⟨_, rfl⟩
      | error e =>
        obtain ⟨x, hx, failed⟩ := exists_hash_eq_error hxs
        rcases ih x hx with ⟨n, hashed⟩ | ⟨kind, hashed⟩
        · cases hashed.symm.trans failed
        · cases hashed.symm.trans failed
          exact .inr ⟨kind, rfl⟩
    | list xs => exact .inr ⟨_, rfl⟩
    | dict d => exact .inr ⟨_, rfl⟩
    | slice s => exact .inr ⟨_, rfl⟩
    | iter i => exact .inr ⟨_, rfl⟩
    | _ => exact .inl ⟨_, rfl⟩

theorem hash_ne (v : Value) : v.hash ≠ .ok (-1) := by
  cases v with
  | none => simp [hash, Hash.absent]
  | bool b => cases b <;> simp [hash, Word.ofBool]
  | int n => simpa [hash] using Hash.int_ne n
  | float x => simpa [hash] using Hash.float_ne x
  | str t => simpa [hash] using Hash.text_ne t.chars
  | tuple i xs =>
    rw [hash]
    cases hashItems xs with
    | error e => simp
    | ok hashes => simpa using Hash.sequence_ne hashes xs.length
  | _ => simp [hash]

end Value
end DynamicValues
