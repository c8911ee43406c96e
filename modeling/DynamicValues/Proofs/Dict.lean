import DynamicValues.Proofs.Equality

/-!
Every change of a dict keeps it sound. What a change does to the keys is said once, for putting a binding
and for leaving entries out.
-/

set_option autoImplicit false

namespace DynamicValues

section Gives

variable {ε α β : Type} {p : α → Prop} {q : β → Prop}

/-- The result, if there is one, satisfies `p`. -/
def Gives (x : Except ε α) (p : α → Prop) : Prop := ∀ a, x = .ok a → p a

namespace Gives

theorem ok {a : α} (h : p a) : Gives (.ok a : Except ε α) p := by
  rintro _ ⟨⟩
  exact h

theorem error (e : ε) : Gives (.error e) p := by
  rintro _ ⟨⟩

theorem anything (x : Except ε α) : Gives x fun _ => True := fun _ _ => trivial

theorem and {x : Except ε α} {p' : α → Prop} (h : Gives x p) (h' : Gives x p') :
    Gives x fun a => p a ∧ p' a :=
  fun a ha => ⟨h a ha, h' a ha⟩

theorem bind {x : Except ε α} {f : α → Except ε β} (hx : Gives x p) (hf : ∀ a, p a → Gives (f a) q) :
    Gives (x >>= f) q := by
  cases x with
  | error e => exact error e
  | ok a => exact hf a (hx a rfl)

end Gives
end Gives

namespace Key

structure Sound (w : World) (k : Key) : Prop where
  value : k.value.Sound w
  hash : k.value.hash = .ok k.hash

theorem gives_of {w : World} {v : Value} (sound : v.Sound w) : Gives (of v) (Sound w) := by
  have hashed : Gives v.hash fun n => v.hash = .ok n := fun _ h => h
  exact hashed.bind fun n h => .ok ⟨sound, h⟩

theorem sound_ofText (w : World) (t : Text) : (ofText t).Sound w :=
  ⟨.of_scalar trivial rfl, rfl⟩

end Key

namespace Dict

variable {w : World}

theorem sound_iff {d : Dict Value} : (Value.dict d).Sound w ↔
    ((d.entries.map Entry.asKey).Pairwise fun k l => ¬k.beq l) ∧
      (∀ k ∈ d.entries.map Entry.asKey, k.Sound w) ∧ Items.Sound w d.values := by
  rw [List.pairwise_map, List.forall_mem_map, Items.Sound, values, List.forall_mem_map]
  constructor
  · intro h
    refine ⟨h.fits.distinct, ?_, ?_⟩
    · intro e he
      exact ⟨h.part (Value.key_mem_parts he), h.fits.hashed e he⟩
    · intro e he
      exact h.part (Value.value_mem_parts he)
  · rintro ⟨distinct, keys, values⟩
    refine .of_parts ⟨distinct, fun e he => (keys e he).hash⟩ ?_
    intro x hx
    obtain ⟨e, he, rfl | rfl⟩ := Value.mem_parts_dict.1 hx
    · exact (keys e he).value
    · exact values e he

theorem sound_empty (w : World) : (Value.dict empty).Sound w :=
  sound_iff.2 ⟨.nil, by simp [empty], by simp [empty, values, Items.Sound]⟩

theorem sound_of_sublist {d : Dict Value} {es : List (Entry Value)} (h : (Value.dict d).Sound w)
    (sublist : es.Sublist d.entries) : (Value.dict ⟨es⟩).Sound w := by
  rw [sound_iff] at *
  obtain ⟨distinct, keys, values⟩ := h
  refine ⟨distinct.sublist (sublist.map _), ?_, ?_⟩
  · intro k hk
    exact keys k ((sublist.map _).subset hk)
  · intro v hv
    exact values v ((sublist.map _).subset hv)

/-- A key that is there stays as it was first put; a new one goes to the end. -/
theorem map_asKey_putEntry (k : Key) (v : Value) (es : List (Entry Value)) :
    (putEntry k v es).map Entry.asKey =
      if es.any k.finds then es.map Entry.asKey else es.map Entry.asKey ++ [k] := by
  induction es with
  | nil => rfl
  | cons e es ih =>
    rw [putEntry]
    by_cases found : k.finds e = true
    · simp [found, Entry.asKey]
    · simp only [found, Bool.false_eq_true, if_false, List.map_cons, ih, List.any_cons, Bool.false_or]
      split <;> rfl

theorem value_of_mem_putEntry {k : Key} {v : Value} {es : List (Entry Value)} {f : Entry Value}
    (h : f ∈ putEntry k v es) : f.value = v ∨ f ∈ es := by
  induction es with
  | nil =>
    rw [putEntry, List.mem_singleton] at h
    exact .inl (by rw [h])
  | cons e es ih =>
    rw [putEntry] at h
    split at h
    · rcases List.mem_cons.1 h with rfl | tail
      · exact .inl rfl
      · exact .inr (List.mem_cons_of_mem _ tail)
    · rcases List.mem_cons.1 h with rfl | tail
      · exact .inr (by simp)
      · exact (ih tail).imp_right (List.mem_cons_of_mem _)

theorem putEntry_of_misses {k : Key} {es : List (Entry Value)} (missed : ∀ e ∈ es, k.finds e = false) (v : Value) :
    putEntry k v es = es ++ [⟨k.hash, k.value, v⟩] := by
  induction es with
  | nil => rfl
  | cons e es ih =>
    obtain ⟨head, tail⟩ := List.forall_mem_cons.1 missed
    simp [putEntry, head, ih tail]

theorem sound_put {d : Dict Value} {k : Key} {v : Value} (h : (Value.dict d).Sound w) (hk : k.Sound w)
    (hv : v.Sound w) : (Value.dict (d.put k v)).Sound w := by
  rw [sound_iff] at *
  obtain ⟨distinct, keys, values⟩ := h
  simp only [put, map_asKey_putEntry]
  refine ⟨?_, ?_, ?_⟩
  · split
    · exact distinct
    · next absent =>
      rw [List.pairwise_append]
      refine ⟨distinct, by simp, ?_⟩
      intro l hl m hm found
      rw [List.mem_singleton] at hm
      subst hm
      obtain ⟨e, he, rfl⟩ := List.mem_map.1 hl
      have back : m.finds e = true := (Value.tame_sound w).finds_symm (e := e) (f := ⟨m.hash, m.value, v⟩)
        (keys _ hl).value hk.value found
      exact absent (List.any_eq_true.2 ⟨e, he, back⟩)
  · intro l hl
    split at hl
    · exact keys l hl
    · rcases List.mem_append.1 hl with old | new
      · exact keys l old
      · rw [List.mem_singleton.1 new]
        exact hk
  · intro x hx
    obtain ⟨f, hf, rfl⟩ := List.mem_map.1 hx
    rcases value_of_mem_putEntry hf with new | old
    · exact new ▸ hv
    · exact values _ (List.mem_map_of_mem old)

theorem sound_erase {d : Dict Value} (h : (Value.dict d).Sound w) (k : Key) :
    (Value.dict (d.erase k)).Sound w :=
  sound_of_sublist h List.eraseP_sublist

theorem sound_update {d other : Dict Value} (hd : (Value.dict d).Sound w)
    (ho : (Value.dict other).Sound w) : (Value.dict (d.update other)).Sound w := by
  obtain ⟨-, keys, values⟩ := sound_iff.1 ho
  unfold update
  rw [List.forall_mem_map] at keys
  simp only [Items.Sound, Dict.values, List.forall_mem_map] at values
  generalize other.entries = es at keys values
  induction es generalizing d with
  | nil => exact hd
  | cons e es ih =>
    rw [List.forall_mem_cons] at keys values
    exact ih (sound_put hd keys.1 values.1) keys.2 values.2

theorem sound_of_find? {d : Dict Value} {k : Key} {v : Value} (h : (Value.dict d).Sound w)
    (found : d.find? k = some v) : v.Sound w := by
  obtain ⟨e, he, rfl⟩ := Option.map_eq_some_iff.1 found
  exact h.part (Value.value_mem_parts (List.mem_of_find?_eq_some he))

theorem sound_keys {d : Dict Value} (h : (Value.dict d).Sound w) : Items.Sound w d.keys := by
  intro x hx
  obtain ⟨e, he, rfl⟩ := List.mem_map.1 hx
  exact h.part (Value.key_mem_parts he)

/-- The dict without a key, if it is there. -/
def delete (d : Dict Value) (key : Value) : Except Error (Dict Value) := (DictEdit.delete key).on d

/-- The value of a key and the dict without it; a missing key gives `absent`, if there is one. -/
def pop (d : Dict Value) (key : Value) (absent : Option Value) : Except Error (Value × Dict Value) :=
  (DictEdit.pop key absent).result d

/-- The first binding and the rest. -/
def popFirst (d : Dict Value) : Except Error (Entry Value × Dict Value) := DictEdit.popFirst.result d

theorem erase_of_find?_eq_none {d : Dict Value} {k : Key} (h : d.find? k = none) : d.erase k = d := by
  have apart : ∀ e ∈ d.entries, ¬k.finds e := by simpa [find?] using h
  rw [erase, List.eraseP_of_forall_not apart]

theorem set_eq (d : Dict Value) (key v : Value) : d.set key v = do return d.put (← Key.of key) v :=
  Edit.on_check_bind d (Key.of key) _

theorem delete_eq (d : Dict Value) (key : Value) : d.delete key = (do
    let k ← Key.of key
    (d.find? k).elim (throw (.missingKey key)) fun _ => pure (d.erase k)) := by
  rw [delete, DictEdit.delete, Edit.on_check_bind]
  congr 1
  funext k
  change Edit.on (.orFail (modifyGet fun d => ((d.find? k).map fun _ => (), d.erase k)) _) d = _
  rw [Edit.on, Edit.result_orFail]
  cases d.find? k <;> rfl

theorem pop_eq (d : Dict Value) (key : Value) (absent : Option Value) : d.pop key absent = (do
    let k ← Key.of key
    (d.find? k).elim (absent.elim (throw (.missingKey key)) fun v => pure (v, d)) fun v =>
      pure (v, d.erase k)) := by
  rw [pop, DictEdit.pop, Edit.result_check_bind]
  congr 1
  funext k
  change Edit.result (.orFail (modifyGet fun d => ((d.find? k).or absent, d.erase k)) _) d = _
  rw [Edit.result_orFail]
  cases found : d.find? k with
  | some v => rfl
  | none =>
    rw [erase_of_find?_eq_none found]
    cases absent <;> rfl

theorem popFirst_eq (d : Dict Value) :
    d.popFirst = d.entries.head?.elim (.error .emptyDict) fun e => .ok (e, ⟨d.entries.tail⟩) :=
  Edit.result_orFail d _ _

theorem gives_get {d : Dict Value} {key : Value} (h : (Value.dict d).Sound w) :
    Gives (d.get key) (Value.Sound w) := by
  refine .bind (.anything _) fun k _ => ?_
  cases found : d.find? k with
  | none => exact .error _
  | some v => exact .ok (sound_of_find? h found)

theorem gives_getD {d : Dict Value} {key absent : Value} (h : (Value.dict d).Sound w)
    (ha : absent.Sound w) : Gives (d.getD key absent) (Value.Sound w) := by
  refine .bind (.anything _) fun k _ => .ok ?_
  cases found : d.find? k with
  | none => exact ha
  | some v => exact sound_of_find? h found

theorem gives_set {d : Dict Value} {key v : Value} (h : (Value.dict d).Sound w) (hk : key.Sound w)
    (hv : v.Sound w) : Gives (d.set key v) fun e => (Value.dict e).Sound w := by
  rw [set_eq]
  exact (Key.gives_of hk).bind fun _ k => .ok (sound_put h k hv)

theorem gives_delete {d : Dict Value} {key : Value} (h : (Value.dict d).Sound w) :
    Gives (d.delete key) fun e => (Value.dict e).Sound w := by
  rw [delete_eq]
  refine .bind (.anything _) fun k _ => ?_
  cases d.find? k with
  | none => exact .error _
  | some v => exact .ok (sound_erase h k)

theorem gives_pop {d : Dict Value} {key : Value} {absent : Option Value} (h : (Value.dict d).Sound w)
    (ha : ∀ v, absent = some v → v.Sound w) :
    Gives (d.pop key absent) fun r => r.1.Sound w ∧ (Value.dict r.2).Sound w := by
  rw [pop_eq]
  refine .bind (.anything _) fun k _ => ?_
  cases found : d.find? k with
  | some v => exact .ok ⟨sound_of_find? h found, sound_erase h k⟩
  | none =>
    cases absent with
    | some v => exact .ok ⟨ha v rfl, h⟩
    | none => exact .error _

theorem gives_popFirst {d : Dict Value} (h : (Value.dict d).Sound w) :
    Gives d.popFirst fun r => r.1.key.Sound w ∧ r.1.value.Sound w ∧ (Value.dict r.2).Sound w := by
  rw [popFirst_eq]
  cases first : d.entries.head? with
  | none => exact .error _
  | some e =>
    have he : e ∈ d.entries := List.mem_of_head? first
    refine .ok ⟨h.part (Value.key_mem_parts he), h.part (Value.value_mem_parts he), ?_⟩
    exact sound_of_sublist h (List.tail_sublist _)

end Dict
end DynamicValues
