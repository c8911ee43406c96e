import DynamicValues.Proofs.Lookup

/-!
Dicts are maps. What a key gives after a binding was put, taken out or taken over from another dict is said by
equality of keys alone, although a key that differs from itself is never found and goes in again each time.
An update is a fold of puts; since the keys of the other dict are pairwise unequal, its steps do not meet.
-/

set_option autoImplicit false

namespace DynamicValues

section Keys

variable {w : World} {k k' : Key} {e : Entry Value}

/-- Equal values have equal hashes, so hashes decide nothing. -/
theorem Key.Sound.finds_eq (hk : k.Sound w) (he : e.asKey.Sound w) : k.finds e = (k.value == e.key) := by
  rw [Bool.eq_iff_iff]
  constructor
  · intro found
    exact (Bool.and_eq_true_iff.1 found).2
  · intro equal
    have hashes := Value.hash_eq_of_beq hk.value he.value equal
    rw [hk.hash, he.hash] at hashes
    exact Bool.and_eq_true_iff.2 ⟨beq_iff_eq.2 (Except.ok.inj hashes), equal⟩

/-- A key finds what an equal one finds. -/
theorem Key.Sound.finds_congr (hk : k.Sound w) (hk' : k'.Sound w) (he : e.asKey.Sound w)
    (equal : (k'.value == k.value) = true) : k'.finds e = k.finds e := by
  have tame := Value.tame_sound w
  rw [hk.finds_eq he, hk'.finds_eq he, Bool.eq_iff_iff]
  constructor
  · intro found
    exact tame.trans _ _ _ hk.value hk'.value he.value (tame.symm _ _ hk'.value hk.value equal) found
  · intro found
    exact tame.trans _ _ _ hk'.value hk.value he.value equal found

/-- Keys that find one entry are equal. -/
theorem Key.Sound.finds_of_finds (hk : k.Sound w) (hk' : k'.Sound w) (he : e.asKey.Sound w)
    (found : k.finds e = true) : k'.finds e = (k'.value == k.value) := by
  have tame := Value.tame_sound w
  rw [hk.finds_eq he] at found
  rw [hk'.finds_eq he, Bool.eq_iff_iff]
  constructor
  · intro equal
    exact tame.trans _ _ _ hk'.value he.value hk.value equal (tame.symm _ _ hk.value he.value found)
  · intro equal
    exact tame.trans _ _ _ hk'.value hk.value he.value equal found

end Keys

namespace Dict

variable {w : World} {d o : Dict Value} {k k' : Key} {e : Entry Value} {es : List (Entry Value)}

/-- A dict by its first entry, which finds none of the others. -/
structure Begins (w : World) (e : Entry Value) (es : List (Entry Value)) : Prop where
  key : e.asKey.Sound w
  value : e.value.Sound w
  rest : (Value.dict ⟨es⟩).Sound w
  apart : ∀ f ∈ es, e.asKey.finds f = false
  keys : ∀ f ∈ es, f.asKey.Sound w

theorem begins_of_sound (h : (Value.dict ⟨e :: es⟩).Sound w) : Begins w e es := by
  obtain ⟨distinct, keys, values⟩ := sound_iff.1 h
  obtain ⟨key, others⟩ := List.forall_mem_cons.1 keys
  refine ⟨key, values _ (List.mem_cons_self ..), sound_of_sublist h (List.sublist_cons_self e es), ?_, ?_⟩
  · intro f hf
    exact Bool.eq_false_iff.2 (List.rel_of_pairwise_cons h.fits.distinct hf)
  · intro f hf
    exact others _ (List.mem_map_of_mem hf)

theorem find?_cons (e : Entry Value) (es : List (Entry Value)) (k : Key) :
    find? ⟨e :: es⟩ k = if k.finds e then some e.value else find? ⟨es⟩ k := by
  simp only [find?, List.find?_cons]
  split <;> next found => simp [found]

theorem Begins.find?_eq_none (h : Begins w e es) (hk : k.Sound w) (found : k.finds e = true) :
    find? ⟨es⟩ k = none := by
  have missed : ∀ f ∈ es, ¬k.finds f = true := by
    intro f hf again
    have met := hk.finds_of_finds h.key (h.keys f hf) again
    have back := (Value.tame_sound w).symm _ _ hk.value h.key.value ((hk.finds_eq h.key).symm.trans found)
    rw [h.apart f hf] at met
    cases met.trans back
  rw [find?, List.find?_eq_none.2 missed]
  rfl

theorem find?_put (hd : (Value.dict d).Sound w) (hk : k.Sound w) (hk' : k'.Sound w) (v : Value) :
    (d.put k v).find? k' = if k'.value == k.value then some v else d.find? k' := by
  obtain ⟨es⟩ := d
  rw [put]
  induction es with
  | nil =>
    have found : k'.finds ⟨k.hash, k.value, v⟩ = (k'.value == k.value) := hk'.finds_eq (by exact hk)
    rw [putEntry, find?_cons, found]
  | cons e es ih =>
    have begins := begins_of_sound hd
    rw [putEntry, find?_cons]
    by_cases here : k.finds e = true
    · have same : k'.finds e = (k'.value == k.value) := hk.finds_of_finds hk' begins.key here
      have renewed : k'.finds ⟨e.hash, e.key, v⟩ = (k'.value == k.value) := same
      rw [if_pos here, find?_cons, renewed, same]
      split <;> rfl
    · rw [if_neg here, find?_cons, ih begins.rest]
      by_cases found : k'.finds e = true
      · have apart : ¬(k'.value == k.value) = true := fun equal =>
          here ((hk.finds_congr hk' begins.key equal).symm.trans found)
        rw [if_pos found, if_pos found, if_neg apart]
      · rw [if_neg found, if_neg found]

theorem find?_erase (hd : (Value.dict d).Sound w) (hk : k.Sound w) (hk' : k'.Sound w) :
    (d.erase k).find? k' = if k'.value == k.value then none else d.find? k' := by
  obtain ⟨es⟩ := d
  rw [erase]
  induction es with
  | nil => exact (ite_self _).symm
  | cons e es ih =>
    have begins := begins_of_sound hd
    by_cases here : k.finds e = true
    · have same : k'.finds e = (k'.value == k.value) := hk.finds_of_finds hk' begins.key here
      rw [List.eraseP_cons_of_pos here, find?_cons, same]
      split
      · next equal => exact begins.find?_eq_none hk' (same.trans equal)
      · rfl
    · rw [List.eraseP_cons_of_neg here, find?_cons, find?_cons, ih begins.rest]
      by_cases found : k'.finds e = true
      · have apart : ¬(k'.value == k.value) = true := fun equal =>
          here ((hk.finds_congr hk' begins.key equal).symm.trans found)
        rw [if_pos found, if_pos found, if_neg apart]
      · rw [if_neg found, if_neg found]

/-- The first entry of the other dict is put before the rest of it. -/
theorem update_cons (d : Dict Value) (e : Entry Value) (es : List (Entry Value)) :
    d.update ⟨e :: es⟩ = (d.put e.asKey e.value).update ⟨es⟩ := rfl

theorem find?_update (hd : (Value.dict d).Sound w) (ho : (Value.dict o).Sound w) (hk : k.Sound w) :
    (d.update o).find? k = (o.find? k).or (d.find? k) := by
  obtain ⟨es⟩ := o
  induction es generalizing d with
  | nil => rfl
  | cons e es ih =>
    have begins := begins_of_sound ho
    rw [update_cons, ih (sound_put hd begins.key begins.value) begins.rest, find?_put hd begins.key hk,
      find?_cons, hk.finds_eq begins.key]
    by_cases equal : (k.value == e.key) = true
    · have none := begins.find?_eq_none hk ((hk.finds_eq begins.key).trans equal)
      rw [none]
      simp [Entry.asKey, equal]
    · simp [Entry.asKey, equal]

theorem contains_keys (hd : (Value.dict d).Sound w) (hk : k.Sound w) :
    Sequence.contains d.keys k.value = d.entries.any k.finds := by
  rw [Sequence.contains, keys, List.any_map, Bool.eq_iff_iff, List.any_eq_true, List.any_eq_true]
  constructor
  · rintro ⟨e, he, equal⟩
    exact ⟨e, he, (scans hd hk e he).trans equal⟩
  · rintro ⟨e, he, found⟩
    exact ⟨e, he, (scans hd hk e he).symm.trans found⟩

theorem keys_put (hd : (Value.dict d).Sound w) (hk : k.Sound w) (v : Value) :
    (d.put k v).keys = if Sequence.contains d.keys k.value then d.keys else d.keys ++ [k.value] := by
  have keys (es : List (Entry Value)) : es.map Entry.key = (es.map Entry.asKey).map Key.value := by
    rw [List.map_map]
    rfl
  rw [contains_keys hd hk, Dict.keys, Dict.keys, put, keys, keys, map_asKey_putEntry]
  split <;> simp

/-- What is put on the way has no bearing on the other keys, since it is equal to none of them. -/
theorem keys_update (hd : (Value.dict d).Sound w) (ho : (Value.dict o).Sound w) :
    (d.update o).keys = d.keys ++ o.keys.filter fun x => !Sequence.contains d.keys x := by
  obtain ⟨es⟩ := o
  induction es generalizing d with
  | nil => exact (List.append_nil _).symm
  | cons e es ih =>
    have begins := begins_of_sound ho
    have apart : ∀ x ∈ keys ⟨es⟩, (e.key == x) = false := by
      refine List.forall_mem_map.2 fun f hf => ?_
      rw [← begins.apart f hf, begins.key.finds_eq (begins.keys f hf)]
      rfl
    have others : ∀ x ∈ keys ⟨es⟩, (!Sequence.contains (d.put e.asKey e.value).keys x) =
        !Sequence.contains d.keys x := by
      intro x hx
      rw [keys_put hd begins.key]
      split
      · rfl
      · simp [Sequence.contains, Entry.asKey, apart x hx]
    rw [update_cons, ih (sound_put hd begins.key begins.value) begins.rest, List.filter_congr others,
      keys_put hd begins.key]
    change _ = d.keys ++ (e.key :: keys ⟨es⟩).filter _
    cases present : Sequence.contains d.keys e.key <;> simp [Entry.asKey, present]

theorem put_eq_self {v : Value} (h : d.find? k = some v) : d.put k v = d := by
  obtain ⟨es⟩ := d
  rw [put, mk.injEq]
  induction es with
  | nil => cases h
  | cons e es ih =>
    rw [find?_cons] at h
    rw [putEntry]
    split at h
    · next found =>
      cases h
      rw [if_pos found]
    · next missed => rw [if_neg missed, ih h]

theorem update_eq_self (h : ∀ e ∈ o.entries, d.find? e.asKey = some e.value) : d.update o = d := by
  obtain ⟨es⟩ := o
  induction es with
  | nil => rfl
  | cons e es ih =>
    obtain ⟨first, others⟩ := List.forall_mem_cons.1 h
    rw [update_cons, put_eq_self first, ih others]

theorem find?_asKey (ho : (Value.dict o).Sound w) (he : e ∈ o.entries) (equal : (e.key == e.key) = true) :
    o.find? e.asKey = some e.value := by
  have keys : ∀ f ∈ o.entries, f.key.Sound w := fun f hf => ho.part (Value.key_mem_parts hf)
  have itself : e.asKey.finds e = true := Value.finds_iff.2 ⟨rfl, equal⟩
  rw [find?, (Value.tame_sound w).find?_eq_of_finds ho.fits.distinct keys (keys e he) he itself]
  rfl

theorem update_update (hd : (Value.dict d).Sound w) (ho : (Value.dict o).Sound w)
    (equal : ∀ x ∈ o.keys, (x == x) = true) : (d.update o).update o = d.update o := by
  apply update_eq_self
  intro e he
  have hk : e.asKey.Sound w := ⟨ho.part (Value.key_mem_parts he), ho.fits.hashed e he⟩
  rw [find?_update hd ho hk, find?_asKey ho he (equal _ (List.mem_map_of_mem he))]
  rfl

/-- All lookups of a key tell of the same value, or that there is none. -/
structure Answers (d : Dict Value) (key : Value) (found : Option Value) : Prop where
  get : d.get key = found.elim (.error (.missingKey key)) .ok
  getD : ∀ absent, d.getD key absent = .ok (found.getD absent)
  contains : d.contains key = .ok found.isSome

variable {key key' : Value} {hash hash' : Int64}

theorem answers_of_hash (hashed : key.hash = .ok hash) (d : Dict Value) :
    d.Answers key (d.find? ⟨hash, key⟩) :=
  ⟨get_of_hash hashed d, getD_of_hash hashed d, contains_of_hash hashed d⟩

theorem answers_of_find? (hashed : key.hash = .ok hash) {found : Option Value}
    (h : d.find? ⟨hash, key⟩ = found) : d.Answers key found :=
  h ▸ answers_of_hash hashed d

end Dict

/-- The laws of maps, for the dicts and the keys with a hash of a session. After a value was bound to a key,
equal keys give that value; after a key was taken out, equal keys give none; others give what they gave. An
update prefers the other dict, whose new keys come last, in their order. Repeating it changes nothing, provided
that the keys of the other dict are equal to themselves. -/
theorem dict_map_laws {s : Session} (reachable : s.Reachable) {d o : Dict Value} {k k' : Value} {h h' : Int64}
    (hd : s.Holds (.dict d)) (ho : s.Holds (.dict o)) (hk : s.Holds k) (hk' : s.Holds k')
    (hashed : k.hash = .ok h) (hashed' : k'.hash = .ok h') :
    ∃ old mine theirs, d.Answers k old ∧ d.Answers k' mine ∧ o.Answers k' theirs ∧
      (∀ v, ∃ d', d.set k v = .ok d' ∧ d'.Answers k' (if k' == k then some v else mine)) ∧
      (∀ v, old = some v → ∃ d', d.delete k = .ok d' ∧ (∀ absent, d.pop k absent = .ok (v, d')) ∧
        d'.Answers k' (if k' == k then none else mine)) ∧
      (old = none → d.delete k = .error (.missingKey k) ∧ d.pop k none = .error (.missingKey k) ∧
        (∀ v, d.pop k (some v) = .ok (v, d)) ∧ ((k' == k) = true → mine = none)) ∧
      (d.update o).Answers k' (theirs.or mine) ∧
      (∀ x ∈ o.keys, d.contains x = .ok (Sequence.contains d.keys x)) ∧
      (d.update o).keys = d.keys ++ o.keys.filter (fun x => !Sequence.contains d.keys x) ∧
      ((∀ x ∈ o.keys, (x == x) = true) → (d.update o).update o = d.update o) := by
  obtain ⟨w, hs⟩ := reachable.exists_sound
  have hd := hs.of_holds hd
  have ho := hs.of_holds ho
  have hk : Key.Sound w ⟨h, k⟩ := ⟨hs.of_holds hk, hashed⟩
  have hk' : Key.Sound w ⟨h', k'⟩ := ⟨hs.of_holds hk', hashed'⟩
  refine ⟨_, _, _, Dict.answers_of_hash hashed d, Dict.answers_of_hash hashed' d,
    Dict.answers_of_hash hashed' o, ?_, ?_, ?_, ?_, ?_, Dict.keys_update hd ho, Dict.update_update hd ho⟩
  · intro v
    exact ⟨_, Dict.set_of_hash hashed d v, Dict.answers_of_find? hashed' (Dict.find?_put hd hk hk' v)⟩
  · intro v found
    refine ⟨d.erase ⟨h, k⟩, ?_, ?_, Dict.answers_of_find? hashed' (Dict.find?_erase hd hk hk')⟩
    · rw [Dict.delete_of_hash hashed, found]
      rfl
    · intro absent
      rw [Dict.pop_of_hash hashed, found]
      rfl
  · intro missing
    refine ⟨?_, ?_, ?_, ?_⟩
    · rw [Dict.delete_of_hash hashed, missing]
      rfl
    · rw [Dict.pop_of_hash hashed, missing]
      rfl
    · intro v
      rw [Dict.pop_of_hash hashed, missing]
      rfl
    · intro equal
      have interchanges := Dict.interchanges_of_beq hd hk'.value hk.value equal
      have both := interchanges.contains
      rw [Dict.contains_of_hash hashed, Dict.contains_of_hash hashed', missing] at both
      simpa using both
  · exact Dict.answers_of_find? hashed' (Dict.find?_update hd ho hk')
  · refine List.forall_mem_map.2 fun e he => ?_
    have hashed := ho.fits.hashed e he
    have key : Key.Sound w ⟨e.hash, e.key⟩ := ⟨ho.part (Value.key_mem_parts he), hashed⟩
    rcases Dict.among_or_lacks hd key.value with ⟨before, f, after, among⟩ | lacks
    · exact Dict.contains_of_among hashed (Dict.scans hd key) among
    · exact Dict.contains_of_lacks hashed (Dict.scans hd key) lacks

namespace Ledger

/-- Two dicts with a key in common, which is a number in one and a truth value in the other. -/
def program : List Call :=
  [⟨.query .identity [.dict [(.int 1, .none), (.int 2, .none)]], some "mine"⟩,
    ⟨.query .identity [.dict [(.int 3, .none), (.bool true, .int 7)]], some "theirs"⟩]

def session : Session := (Session.empty.run [] program).2

def mine : Dict Value := ⟨[⟨1, .int 1, .none⟩, ⟨2, .int 2, .none⟩]⟩

def theirs : Dict Value := ⟨[⟨3, .int 3, .none⟩, ⟨1, .bool true, .int 7⟩]⟩

theorem vars_session : session.vars = [("theirs", .dict theirs), ("mine", .dict mine)] := rfl

theorem reachable_session : session.Reachable := ⟨[], program, rfl⟩

theorem holds_mine : session.Holds (.dict mine) := .of_var "mine" (by simp [vars_session])

theorem holds_theirs : session.Holds (.dict theirs) := .of_var "theirs" (by simp [vars_session])

theorem holds_one : session.Holds (.int 1) :=
  holds_mine.part (by simp [Value.parts, mine])

theorem holds_true : session.Holds (.bool true) :=
  holds_theirs.part (by simp [Value.parts, theirs])

end Ledger

/-- What is set, deleted or updated under the truth value is what the number, equal to it, is looked up as. -/
theorem map_laws_in_ledger :
    (∃ d', Ledger.mine.set (.bool true) (.int 5) = .ok d' ∧ d'.Answers (.int 1) (some (.int 5))) ∧
      (∃ d', Ledger.mine.delete (.bool true) = .ok d' ∧ d'.Answers (.int 1) none) ∧
      (Ledger.mine.update Ledger.theirs).Answers (.int 1) (some (.int 7)) ∧
      (Ledger.mine.update Ledger.theirs).keys = [.int 1, .int 2, .int 3] ∧
      (Ledger.mine.update Ledger.theirs).update Ledger.theirs = Ledger.mine.update Ledger.theirs := by
  have hash_true : (Value.bool true).hash = .ok 1 := rfl
  have hash_one : (Value.int 1).hash = .ok 1 := rfl
  obtain ⟨old, mine, theirs, before, -, other, set, delete, -, update, -, keys, twice⟩ :=
    dict_map_laws Ledger.reachable_session Ledger.holds_mine Ledger.holds_theirs Ledger.holds_true
      Ledger.holds_one hash_true hash_one
  obtain rfl : old = some .none := by
    cases old with
    | none => cases before.get
    | some v => cases before.get; rfl
  obtain rfl : theirs = some (.int 7) := by
    cases theirs with
    | none => cases other.get
    | some v => cases other.get; rfl
  obtain ⟨d', deleted, -, after⟩ := delete _ rfl
  exact ⟨set (.int 5), ⟨d', deleted, after⟩, update, keys, twice (by decide)⟩

end DynamicValues
