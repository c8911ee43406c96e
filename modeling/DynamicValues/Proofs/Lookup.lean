import DynamicValues.Proofs.Hashing
import DynamicValues.Proofs.Session
import Mathlib.Data.List.Find

/-!
Looking for a key by its hash and by equality is the same as scanning the keys for an equal one: equal
values have equal hashes, and at most one key of a dict is equal to a given value. All lookups then act on
the one entry that a scan finds.
-/

set_option autoImplicit false

namespace DynamicValues

namespace Key

/-- The entries that the key finds are those whose key is equal to it. -/
def Scans (k : Key) (es : List (Entry Value)) : Prop := ∀ e ∈ es, k.finds e = (e.key == k.value)

variable {β : Type} {key : Value}

theorem of_bind_of_hash {hash : Int64} (h : key.hash = .ok hash) (f : Key → Except Error β) :
    (of key >>= f) = f ⟨hash, key⟩ := by
  rw [of, h]
  rfl

theorem of_bind_of_unhashable {e : Error} (h : key.hash = .error e) (f : Key → Except Error β) :
    (of key >>= f) = .error e := by
  rw [of, h]
  rfl

end Key

namespace Entry

/-- The one entry whose key is equal to a value, and the others around it. -/
structure Among (key : Value) (es before : List (Entry Value)) (e : Entry Value)
    (after : List (Entry Value)) : Prop where
  split : es = before ++ e :: after
  equal : (e.key == key) = true
  others : ∀ f ∈ before ++ after, (f.key == key) = false

/-- No key is equal to a value. -/
def Lacks (key : Value) (es : List (Entry Value)) : Prop := ∀ f ∈ es, (f.key == key) = false

end Entry

namespace Entry.Among

variable {key : Value} {es before after : List (Entry Value)} {e : Entry Value}

section

variable (among : Among key es before e after)
include among

theorem mem : e ∈ es := by simp [among.split]

theorem getElem?_length : es[before.length]? = some e := by simp [among.split]

theorem eraseIdx_length : es.eraseIdx before.length = before ++ after := by
  rw [among.split, List.eraseIdx_append_of_length_le (Nat.le_refl _), Nat.sub_self, List.eraseIdx_cons_zero]

/-- The position of the entry is the only one with an equal key. -/
theorem key_beq_iff {j : Nat} {f : Entry Value} (hf : es[j]? = some f) :
    (f.key == key) = true ↔ j = before.length := by
  by_cases here : j = before.length
  · subst here
    have own : e = f := Option.some.inj (among.getElem?_length.symm.trans hf)
    exact iff_of_true (own ▸ among.equal) rfl
  · have other : f ∈ before ++ after := by
      rw [← among.eraseIdx_length]
      exact List.mem_eraseIdx_iff_getElem?.2 ⟨j, here, hf⟩
    exact iff_of_false (by simp [among.others f other]) here

end

open Dict

variable {k : Key} (among : Among k.value es before e after) (scans : k.Scans es)
include among scans

theorem finds : k.finds e = true := (scans e among.mem).trans among.equal

theorem misses : ∀ f ∈ before, k.finds f = false := by
  intro f hf
  exact (scans f (by simp [among.split, hf])).trans (among.others f (by simp [hf]))

theorem find?_eq : find? ⟨es⟩ k = some e.value := by
  have skipped : before.find? k.finds = none :=
    List.find?_eq_none.2 fun f hf => by simp [among.misses scans f hf]
  simp [find?, among.split, List.find?_append, skipped, among.finds scans]

theorem erase_eq : erase ⟨es⟩ k = ⟨before ++ after⟩ := by
  have skipped : ∀ f ∈ before, ¬k.finds f = true := fun f hf => by simp [among.misses scans f hf]
  simp [erase, among.split, List.eraseP_append_right _ skipped, among.finds scans]

theorem putEntry_eq (v : Value) : putEntry k v es = before ++ ⟨e.hash, e.key, v⟩ :: after := by
  have found := among.finds scans
  have missed := among.misses scans
  rw [among.split]
  clear among scans
  induction before with
  | nil => simp [putEntry, found]
  | cons f before ih =>
    obtain ⟨head, tail⟩ := List.forall_mem_cons.1 missed
    simp [putEntry, head, ih tail]

end Entry.Among

namespace Entry.Lacks

open Dict

variable {k : Key} {es : List (Entry Value)} (lacks : Lacks k.value es) (scans : k.Scans es)
include lacks scans

theorem misses : ∀ f ∈ es, k.finds f = false := fun f hf => (scans f hf).trans (lacks f hf)

theorem find?_eq : find? ⟨es⟩ k = none := by
  have skipped : es.find? k.finds = none :=
    List.find?_eq_none.2 fun f hf => by simp [lacks.misses scans f hf]
  simp [find?, skipped]

theorem putEntry_eq (v : Value) : putEntry k v es = es ++ [⟨k.hash, k.value, v⟩] :=
  putEntry_of_misses (lacks.misses scans) v

end Entry.Lacks

namespace Dict

section Sound

variable {w : World} {d : Dict Value} (hd : (Value.dict d).Sound w)
include hd

theorem scans {k : Key} (hk : k.Sound w) : k.Scans d.entries := by
  intro e he
  have hkey : e.key.Sound w := hd.part (Value.key_mem_parts he)
  rw [Bool.eq_iff_iff]
  constructor
  · intro found
    exact (Value.tame_sound w).symm _ _ hk.value hkey (Bool.and_eq_true_iff.1 found).2
  · intro equal
    have hashes := Value.hash_eq_of_beq hkey hk.value equal
    rw [hd.fits.hashed e he, hk.hash] at hashes
    have back := (Value.tame_sound w).symm _ _ hkey hk.value equal
    exact Bool.and_eq_true_iff.2 ⟨beq_iff_eq.2 (Except.ok.inj hashes).symm, back⟩

/-- No two keys are equal. -/
theorem keys_apart : d.entries.Pairwise fun e f => (e.key == f.key) = false ∧ (f.key == e.key) = false := by
  refine hd.fits.distinct.imp_of_mem ?_
  intro e f he hf apart
  have hashed : e.asKey.Sound w := ⟨hd.part (Value.key_mem_parts he), hd.fits.hashed e he⟩
  have back : (f.key == e.key) = false := by
    rw [← Bool.not_eq_true]
    intro equal
    exact apart ((scans hd hashed f hf).trans equal)
  refine ⟨?_, back⟩
  rw [← Bool.not_eq_true] at back ⊢
  intro equal
  exact back ((Value.tame_sound w).symm _ _ hashed.value (hd.part (Value.key_mem_parts hf)) equal)

theorem among_or_lacks {key : Value} (hk : key.Sound w) :
    (∃ before e after, Entry.Among key d.entries before e after) ∨ Entry.Lacks key d.entries := by
  by_cases present : ∃ e ∈ d.entries, (e.key == key) = true
  · left
    obtain ⟨e, he, equal⟩ := present
    obtain ⟨before, after, split⟩ := List.append_of_mem he
    refine ⟨before, e, after, split, equal, ?_⟩
    intro f hf
    have apart := keys_apart hd
    rw [split, List.pairwise_middle fun h => h.symm, List.pairwise_cons] at apart
    have hf' : f ∈ d.entries := by
      rw [split]
      exact List.perm_middle.symm.subset (List.mem_cons_of_mem e hf)
    have hekey := hd.part (Value.key_mem_parts he)
    have hfkey := hd.part (Value.key_mem_parts hf')
    rw [← Bool.not_eq_true]
    intro equal'
    have back := (Value.tame_sound w).symm _ _ hfkey hk equal'
    have same := (Value.tame_sound w).trans _ _ _ hekey hk hfkey equal back
    rw [(apart.1 f hf).1] at same
    cases same
  · right
    intro f hf
    rw [← Bool.not_eq_true]
    intro equal
    exact present ⟨f, hf, equal⟩

end Sound

section Hashed

variable {key : Value} {hash : Int64} (hashed : key.hash = .ok hash) (d : Dict Value)
include hashed

theorem get_of_hash : d.get key = (d.find? ⟨hash, key⟩).elim (.error (.missingKey key)) .ok := by
  rw [get, Key.of_bind_of_hash hashed]
  cases d.find? ⟨hash, key⟩ <;> rfl

theorem getD_of_hash (absent : Value) : d.getD key absent = .ok ((d.find? ⟨hash, key⟩).getD absent) :=
  Key.of_bind_of_hash hashed _

theorem contains_of_hash : d.contains key = .ok (d.find? ⟨hash, key⟩).isSome :=
  Key.of_bind_of_hash hashed _

theorem set_of_hash (v : Value) : d.set key v = .ok (d.put ⟨hash, key⟩ v) := by
  rw [set_eq]
  exact Key.of_bind_of_hash hashed _

theorem delete_of_hash :
    d.delete key = (d.find? ⟨hash, key⟩).elim (.error (.missingKey key)) fun _ => .ok (d.erase ⟨hash, key⟩) := by
  rw [delete_eq, Key.of_bind_of_hash hashed]
  cases d.find? ⟨hash, key⟩ <;> rfl

theorem pop_of_hash (absent : Option Value) :
    d.pop key absent = (d.find? ⟨hash, key⟩).elim
      (absent.elim (.error (.missingKey key)) fun v => .ok (v, d)) fun v => .ok (v, d.erase ⟨hash, key⟩) := by
  rw [pop_eq, Key.of_bind_of_hash hashed]
  cases d.find? ⟨hash, key⟩ <;> cases absent <;> rfl

end Hashed

/-- Every lookup of a key acts on the entry at position `i`, which has the value `v`, and on no other. -/
structure ActsAt (d : Dict Value) (key : Value) (i : Nat) (v : Value) : Prop where
  value : d.values[i]? = some v
  only : ∀ j x, d.keys[j]? = some x → ((x == key) = true ↔ j = i)
  get : d.get key = .ok v
  getD : ∀ absent, d.getD key absent = .ok v
  delete : d.delete key = .ok ⟨d.entries.eraseIdx i⟩
  pop : ∀ absent, d.pop key absent = .ok (v, ⟨d.entries.eraseIdx i⟩)

/-- No key is equal to the one that is looked for, and every lookup says so. -/
structure Misses (d : Dict Value) (key : Value) : Prop where
  missing : ∀ x ∈ d.keys, (x == key) = false
  get : d.get key = .error (.missingKey key)
  getD : ∀ absent, d.getD key absent = .ok absent
  delete : d.delete key = .error (.missingKey key)
  pop : d.pop key none = .error (.missingKey key)
  popD : ∀ absent, d.pop key (some absent) = .ok (absent, d)

section Outcomes

variable {d : Dict Value} {key : Value} {hash : Int64} (hashed : key.hash = .ok hash)
  (scans : Key.Scans ⟨hash, key⟩ d.entries)
include hashed scans

theorem actsAt_of_among {before after : List (Entry Value)} {e : Entry Value}
    (among : Entry.Among key d.entries before e after) : d.ActsAt key before.length e.value := by
  have value : d.find? ⟨hash, key⟩ = some e.value := among.find?_eq scans
  have rest : d.erase ⟨hash, key⟩ = ⟨d.entries.eraseIdx before.length⟩ := by
    rw [among.eraseIdx_length]
    exact among.erase_eq scans
  constructor
  · rw [values, List.getElem?_map, among.getElem?_length]
    rfl
  · intro j x hx
    obtain ⟨f, hf, rfl⟩ := Option.map_eq_some_iff.1 ((List.getElem?_map ..).symm.trans hx)
    exact among.key_beq_iff hf
  · rw [get_of_hash hashed, value]
    rfl
  · intro absent
    rw [getD_of_hash hashed, value]
    rfl
  · rw [delete_of_hash hashed, value, rest]
    rfl
  · intro absent
    rw [pop_of_hash hashed, value, rest]
    rfl

theorem misses_of_lacks (lacks : Entry.Lacks key d.entries) : d.Misses key := by
  have value : d.find? ⟨hash, key⟩ = none := lacks.find?_eq scans
  constructor
  · exact List.forall_mem_map.2 lacks
  · rw [get_of_hash hashed, value]
    rfl
  · intro absent
    rw [getD_of_hash hashed, value]
    rfl
  · rw [delete_of_hash hashed, value]
    rfl
  · rw [pop_of_hash hashed, value]
    rfl
  · intro absent
    rw [pop_of_hash hashed, value]
    rfl

theorem contains_of_among {before after : List (Entry Value)} {e : Entry Value}
    (among : Entry.Among key d.entries before e after) : d.contains key = .ok (Sequence.contains d.keys key) := by
  have scanned : Sequence.contains d.keys key = true :=
    List.any_eq_true.2 ⟨e.key, List.mem_map_of_mem among.mem, among.equal⟩
  have value : d.find? ⟨hash, key⟩ = some e.value := among.find?_eq scans
  rw [contains_of_hash hashed, value, scanned]
  rfl

theorem contains_of_lacks (lacks : Entry.Lacks key d.entries) :
    d.contains key = .ok (Sequence.contains d.keys key) := by
  have scanned : Sequence.contains d.keys key = false := by
    refine List.any_eq_false.2 (List.forall_mem_map.2 ?_)
    intro f hf
    simp [lacks f hf]
  have value : d.find? ⟨hash, key⟩ = none := lacks.find?_eq scans
  rw [contains_of_hash hashed, value, scanned]
  rfl

end Outcomes

theorem eraseP_congr {p q : Entry Value → Bool} {es : List (Entry Value)} (h : ∀ e ∈ es, p e = q e) :
    es.eraseP p = es.eraseP q := by
  induction es with
  | nil => rfl
  | cons e es ih =>
    obtain ⟨head, tail⟩ := List.forall_mem_cons.1 h
    rw [List.eraseP_cons, List.eraseP_cons, head, ih tail]

/-- The same outcome, but for the key that is said to be missing. -/
inductive Alike {α : Type} (key key' : Value) : Except Error α → Except Error α → Prop
  | same (outcome : Except Error α) : Alike key key' outcome outcome
  | missing : Alike key key' (.error (.missingKey key)) (.error (.missingKey key'))

/-- Either key may stand for the other in every lookup. -/
structure Interchanges (d : Dict Value) (key key' : Value) : Prop where
  get : Alike key key' (d.get key) (d.get key')
  getD : ∀ absent, d.getD key absent = d.getD key' absent
  contains : d.contains key = d.contains key'
  delete : Alike key key' (d.delete key) (d.delete key')
  pop : ∀ absent, Alike key key' (d.pop key absent) (d.pop key' absent)

/-- Keys that find the same entries give the same outcomes. -/
theorem interchanges_of_finds {d : Dict Value} {key key' : Value} {hash : Int64} (hashed : key.hash = .ok hash)
    (hashed' : key'.hash = .ok hash)
    (agree : ∀ e ∈ d.entries, Key.finds ⟨hash, key⟩ e = Key.finds ⟨hash, key'⟩ e) :
    d.Interchanges key key' := by
  have find : d.find? ⟨hash, key⟩ = d.find? ⟨hash, key'⟩ := by rw [find?, find?, List.find?_congr agree]
  have erase : d.erase ⟨hash, key⟩ = d.erase ⟨hash, key'⟩ := by rw [erase, erase, eraseP_congr agree]
  constructor
  · rw [get_of_hash hashed, get_of_hash hashed', find]
    cases d.find? ⟨hash, key'⟩ with
    | none => exact .missing
    | some v => exact .same _
  · intro absent
    rw [getD_of_hash hashed, getD_of_hash hashed', find]
  · rw [contains_of_hash hashed, contains_of_hash hashed', find]
  · rw [delete_of_hash hashed, delete_of_hash hashed', find, erase]
    cases d.find? ⟨hash, key'⟩ with
    | none => exact .missing
    | some v => exact .same _
  · intro absent
    rw [pop_of_hash hashed, pop_of_hash hashed', find, erase]
    cases d.find? ⟨hash, key'⟩ with
    | none =>
      cases absent with
      | none => exact .missing
      | some v => exact .same _
    | some v => exact .same _

theorem interchanges_of_unhashable {d : Dict Value} {key key' : Value} {e : Error}
    (unhashable : key.hash = .error e) (unhashable' : key'.hash = .error e) : d.Interchanges key key' := by
  constructor
  · rw [get, get, Key.of_bind_of_unhashable unhashable, Key.of_bind_of_unhashable unhashable']
    exact .same _
  · intro absent
    rw [getD, getD, Key.of_bind_of_unhashable unhashable, Key.of_bind_of_unhashable unhashable']
  · rw [contains, contains, Key.of_bind_of_unhashable unhashable, Key.of_bind_of_unhashable unhashable']
  · rw [delete_eq, delete_eq, Key.of_bind_of_unhashable unhashable, Key.of_bind_of_unhashable unhashable']
    exact .same _
  · intro absent
    rw [pop_eq, pop_eq, Key.of_bind_of_unhashable unhashable, Key.of_bind_of_unhashable unhashable']
    exact .same _

/-- Equal keys have one hash and are equal to the same keys of a dict. -/
theorem interchanges_of_beq {w : World} {d : Dict Value} {key key' : Value} (hd : (Value.dict d).Sound w)
    (hk : key.Sound w) (hk' : key'.Sound w) (equal : (key == key') = true) : d.Interchanges key key' := by
  have tame := Value.tame_sound w
  have back := tame.symm _ _ hk hk' equal
  have hashes := Value.hash_eq_of_beq hk hk' equal
  cases hashed : key.hash with
  | error e => exact interchanges_of_unhashable hashed (hashes.symm.trans hashed)
  | ok hash =>
    have hashed' : key'.hash = .ok hash := hashes.symm.trans hashed
    refine interchanges_of_finds hashed hashed' ?_
    intro e he
    have hekey := hd.part (Value.key_mem_parts he)
    rw [scans hd ⟨hk, hashed⟩ e he, scans hd ⟨hk', hashed'⟩ e he, Bool.eq_iff_iff]
    constructor
    · intro h
      exact tame.trans _ _ _ hekey hk hk' h equal
    · intro h
      exact tame.trans _ _ _ hekey hk' hk h back

end Dict

namespace Sequence

theorem find?_whole (xs : List Value) (x : Value) : find? xs x none none = xs.findIdx? (· == x) := by
  simp [find?, Slice.window, Slice.resolveBound]

theorem getElem?_of_find {kind : Kind} {xs : List Value} {x : Value} {i : Nat}
    (h : find kind xs x none none = .ok i) : ∃ y, xs[i]? = some y ∧ (y == x) = true := by
  unfold find at h
  rw [find?_whole] at h
  cases found : xs.findIdx? (· == x) with
  | none => simp [found] at h
  | some j =>
    simp [found] at h
    subst h
    obtain ⟨bound, equal, -⟩ := List.findIdx?_eq_some_iff_getElem.1 found
    exact ⟨xs[j], List.getElem?_eq_getElem bound, equal⟩

theorem forall_of_find {kind : Kind} {xs : List Value} {x : Value} {e : Error}
    (h : find kind xs x none none = .error e) : ∀ y ∈ xs, (y == x) = false := by
  unfold find at h
  rw [find?_whole] at h
  cases found : xs.findIdx? (· == x) with
  | none => exact List.findIdx?_eq_none_iff.1 found
  | some j => simp [found] at h

end Sequence

namespace DictCommand

/-- The commands that look for a key or bind one, with their operands. -/
inductive TakesKey (key : Value) : DictCommand → List Value → Prop
  | get (rest : List Value) : TakesKey key .get (key :: rest)
  | getOr (absent : Value) (rest : List Value) : TakesKey key .getOr (key :: absent :: rest)
  | set (v : Value) (rest : List Value) : TakesKey key .set (key :: v :: rest)
  | insert (v : Value) (rest : List Value) : TakesKey key .insert (key :: v :: rest)
  | delete (rest : List Value) : TakesKey key .delete (key :: rest)
  | contains (rest : List Value) : TakesKey key .contains (key :: rest)
  | pop (rest : List Value) : TakesKey key .pop (key :: rest)

theorem exec_of_unhashable {c : DictCommand} {key : Value} {operands : List Value} {e : Error}
    (takes : TakesKey key c operands) (unhashable : key.hash = .error e) (d : Dict Value) (s : Store) :
    exec (c.run d operands) s = (.error (.error e), s) := by
  cases takes with
  | get rest =>
    rw [run, act, Act.result_receiver_bind, Dict.get, Key.of_bind_of_unhashable unhashable]
    rfl
  | getOr absent rest =>
    rw [run, act, Act.result_receiver_bind, Dict.getD, Key.of_bind_of_unhashable unhashable]
    rfl
  | set v rest =>
    rw [run, act, Act.result_edit_bind, DictEdit.set, Edit.result_check_bind,
      Key.of_bind_of_unhashable unhashable]
    rfl
  | insert v rest =>
    rw [run, act, Act.result_except_bind, Key.of, unhashable]
    rfl
  | delete rest =>
    rw [run, act, Act.result_edit_bind, DictEdit.delete, Edit.result_check_bind,
      Key.of_bind_of_unhashable unhashable]
    rfl
  | contains rest =>
    rw [run, act, Act.result_receiver_bind, Dict.contains, Key.of_bind_of_unhashable unhashable]
    rfl
  | pop rest =>
    have refused (absent : Option Value) : (DictEdit.pop key absent).result d = .error e := by
      rw [DictEdit.pop, Edit.result_check_bind, Key.of_bind_of_unhashable unhashable]
    cases rest with
    | nil =>
      rw [run, act, Act.result_edit_bind, refused]
      rfl
    | cons absent rest =>
      rw [run, act, Act.result_edit_bind, refused]
      rfl

end DictCommand

/-- Every lookup of a dict of a session agrees with a scan of its keys for an equal one. A key without a
hash is refused by every command that takes one, and the dict stays as it was. Equal keys can stand for each
other. -/
theorem lookup_agrees_with_scan {s : Session} (reachable : s.Reachable) {d : Dict Value} {key : Value}
    (hd : s.Holds (.dict d)) (hk : s.Holds key) :
    (∀ hash, key.hash = .ok hash →
      d.contains key = .ok (Sequence.contains d.keys key) ∧
      (∀ i, Sequence.find .list d.keys key none none = .ok i → ∃ v, d.ActsAt key i v) ∧
      ∀ e, Sequence.find .list d.keys key none none = .error e →
        d.Misses key ∧ (Error.missingKey key).category = .keyError) ∧
    (∀ e, key.hash = .error e → e.category = .typeError ∧
      ∀ c operands, DictCommand.TakesKey key c operands → ∀ (s t : Session) origin literals,
        s.Evaluates (origin :: literals) (.dict d :: operands) t →
          s.perform (.command (.dict c) (origin :: literals)) = (.error (.error e), some (.dict d), t)) ∧
    ∀ key', s.Holds key' → (key == key') = true → d.Interchanges key key' := by
  obtain ⟨w, hs⟩ := reachable.exists_sound
  have hd := hs.of_holds hd
  have hk := hs.of_holds hk
  refine ⟨?_, ?_, ?_⟩
  · intro hash hashed
    have scans := Dict.scans hd (k := ⟨hash, key⟩) ⟨hk, hashed⟩
    rcases Dict.among_or_lacks hd hk with ⟨before, e, after, among⟩ | lacks
    · have acts := Dict.actsAt_of_among hashed scans among
      refine ⟨Dict.contains_of_among hashed scans among, ?_, ?_⟩
      · intro i found
        obtain ⟨x, hx, equal⟩ := Sequence.getElem?_of_find found
        obtain rfl := (acts.only i x hx).1 equal
        exact ⟨e.value, acts⟩
      · intro e' missing
        have apart := Sequence.forall_of_find missing e.key (List.mem_map_of_mem among.mem)
        cases apart.symm.trans among.equal
    · have misses := Dict.misses_of_lacks hashed scans lacks
      refine ⟨Dict.contains_of_lacks hashed scans lacks, ?_, ?_⟩
      · intro i found
        obtain ⟨x, hx, equal⟩ := Sequence.getElem?_of_find found
        cases (misses.missing x (List.mem_of_getElem? hx)).symm.trans equal
      · intro e missing
        exact ⟨misses, rfl⟩
  · intro e unhashable
    constructor
    · rcases key.hash_cases with ⟨n, ok⟩ | ⟨kind, failed⟩
      · cases ok.symm.trans unhashable
      · cases failed.symm.trans unhashable
        rfl
    · intro c operands takes s t origin literals evaluates
      refine evaluates.perform_of_error ?_
      rw [Session.eval_eq, Command.exec_dict, DictCommand.exec_of_unhashable takes unhashable]
      rfl
  · intro key' hk' equal
    exact Dict.interchanges_of_beq hd hk (hs.of_holds hk') equal

namespace Table

/-- A dict with a number and a pair as keys, a pair that is equal to the second key, and a list. -/
def program : List Call :=
  [⟨.query .identity [.dict [(.int 1, .none), (.tuple [.int 1, .int 2], .bool true)]], some "table"⟩,
    ⟨.query .identity [.tuple [.bool true, .int 2]], some "pair"⟩,
    ⟨.query .identity [.list []], some "list"⟩]

def session : Session := (Session.empty.run [] program).2

def hash : Int64 := 221750529

def stored : Value := .tuple 0 [.int 1, .int 2]

def table : Dict Value := ⟨[⟨1, .int 1, .none⟩, ⟨hash, stored, .bool true⟩]⟩

def pair : Value := .tuple 1 [.bool true, .int 2]

theorem vars_session : session.vars = [("list", .list []), ("pair", pair), ("table", .dict table)] := rfl

theorem reachable_session : session.Reachable := ⟨[], program, rfl⟩

theorem holds_table : session.Holds (.dict table) := .of_var "table" (by simp [vars_session])

theorem holds_stored : session.Holds stored :=
  holds_table.part (by simp [Value.parts, table])

theorem holds_pair : session.Holds pair := .of_var "pair" (by simp [vars_session])

theorem holds_list : session.Holds (.list []) := .of_var "list" (by simp [vars_session])

theorem evaluates : session.Evaluates [.var "table", .var "list"] [.dict table, .list []] session := rfl

theorem hash_pair : pair.hash = .ok hash := rfl

end Table

/-- The pair finds the second entry, and a list is no key. -/
theorem lookup_in_table :
    (∃ v, Table.table.ActsAt Table.pair 1 v) ∧
      Table.table.Interchanges Table.pair Table.stored ∧
      Table.session.perform (.command (.dict .get) [.var "table", .var "list"]) =
        (.error (.error (.unhashable .list)), some (.dict Table.table), Table.session) := by
  obtain ⟨hashed, -, equal⟩ :=
    lookup_agrees_with_scan Table.reachable_session Table.holds_table Table.holds_pair
  obtain ⟨-, unhashable, -⟩ :=
    lookup_agrees_with_scan Table.reachable_session Table.holds_table Table.holds_list
  refine ⟨(hashed _ Table.hash_pair).2.1 1 rfl, equal _ Table.holds_stored (by decide), ?_⟩
  exact (unhashable _ rfl).2 _ _ (.get []) _ _ _ _ Table.evaluates

end DynamicValues
