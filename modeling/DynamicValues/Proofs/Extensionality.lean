import DynamicValues.Proofs.MapLaws

/-!
Dicts are equal when they bind the same keys to equal values. Equality compares sizes and looks for the entries of
one dict in the other; since the entries that are found are pairwise different, nothing of the other dict is left
over. Where all keys are equal to themselves, that is equality of all lookups, so the order of the entries has no
part in it.
-/

set_option autoImplicit false

namespace DynamicValues

namespace Dict

/-- Both dicts have a key, with equal values, or neither has it. -/
structure AgreeAt (d₁ d₂ : Dict Value) (key : Value) : Prop where
  contains : d₁.contains key = d₂.contains key
  get : ∀ v₁ v₂, d₁.get key = .ok v₁ → d₂.get key = .ok v₂ → (v₁ == v₂) = true

/-- What the first dict has at a key, the second one has too. -/
def Included (d₁ d₂ : Dict Value) (k : Key) : Prop :=
  ∀ v₁, d₁.find? k = some v₁ → ∃ v₂, d₂.find? k = some v₂ ∧ (v₁ == v₂) = true

section Lookup

variable {d d₁ d₂ : Dict Value} {key : Value} {hash : Int64} (hashed : key.hash = .ok hash)
include hashed

theorem get_eq_ok_iff {v : Value} : d.get key = .ok v ↔ d.find? ⟨hash, key⟩ = some v := by
  rw [get_of_hash hashed]
  cases d.find? ⟨hash, key⟩ <;> simp

theorem agreeAt_of_included (forth : Included d₁ d₂ ⟨hash, key⟩) (back : Included d₂ d₁ ⟨hash, key⟩) :
    AgreeAt d₁ d₂ key := by
  constructor
  · rw [contains_of_hash hashed, contains_of_hash hashed]
    cases found₁ : d₁.find? ⟨hash, key⟩ with
    | some v₁ =>
      obtain ⟨v₂, found₂, -⟩ := forth v₁ found₁
      rw [found₂]
      rfl
    | none =>
      cases found₂ : d₂.find? ⟨hash, key⟩ with
      | none => rfl
      | some v₂ =>
        obtain ⟨v₁, found, -⟩ := back v₂ found₂
        cases found₁.symm.trans found
  · intro v₁ v₂ got₁ got₂
    obtain ⟨v, found, equal⟩ := forth v₁ ((get_eq_ok_iff hashed).1 got₁)
    obtain rfl := Option.some.inj (found.symm.trans ((get_eq_ok_iff hashed).1 got₂))
    exact equal

theorem AgreeAt.isSome_eq (h : AgreeAt d₁ d₂ key) :
    (d₁.find? ⟨hash, key⟩).isSome = (d₂.find? ⟨hash, key⟩).isSome := by
  have both := h.contains
  rw [contains_of_hash hashed, contains_of_hash hashed] at both
  exact Except.ok.inj both

theorem AgreeAt.included (h : AgreeAt d₁ d₂ key) : Included d₁ d₂ ⟨hash, key⟩ := by
  intro v₁ found₁
  obtain ⟨v₂, found₂⟩ := Option.isSome_iff_exists.1 ((h.isSome_eq hashed).symm.trans (by rw [found₁]; rfl))
  exact ⟨v₂, found₂, h.get v₁ v₂ ((get_eq_ok_iff hashed).2 found₁) ((get_eq_ok_iff hashed).2 found₂)⟩

end Lookup

section Sound

variable {w : World} {d d₁ d₂ : Dict Value} {k : Key} (h₁ : (Value.dict d₁).Sound w) (h₂ : (Value.dict d₂).Sound w)
include h₁ h₂

/-- A key leads to an entry of the first dict, and that one to an entry of the second. -/
theorem included_of_beq (hk : k.Sound w) (equal : (Value.dict d₁ == Value.dict d₂) = true) :
    Included d₁ d₂ k := by
  have tame := Value.tame_sound w
  have keys₁ : ∀ e ∈ d₁.entries, e.key.Sound w := fun e he => h₁.part (Value.key_mem_parts he)
  have keys₂ : ∀ f ∈ d₂.entries, f.key.Sound w := fun f hf => h₂.part (Value.key_mem_parts hf)
  intro v found
  obtain ⟨e, he, rfl⟩ := Option.map_eq_some_iff.1 found
  have mem := List.mem_of_find?_eq_some he
  cases Value.same_of_beq equal with
  | number hd => cases hd
  | dict _ foundIn =>
    obtain ⟨f, hf, values⟩ := foundIn e mem
    have mem' := List.mem_of_find?_eq_some hf
    have finds := tame.finds_trans (e := ⟨k.hash, k.value, .none⟩) hk.value (keys₁ e mem) (keys₂ f mem')
      (List.find?_some he) (List.find?_some hf)
    have here := tame.find?_eq_of_finds (k := ⟨k.hash, k.value, .none⟩) h₂.fits.distinct keys₂ hk.value mem' finds
    exact ⟨f.value, congrArg (Option.map Entry.value) here, values⟩

theorem length_le_of_found (found : ∀ e ∈ d₁.entries, ∃ v, d₂.find? e.asKey = some v) :
    d₁.entries.length ≤ d₂.entries.length := by
  have entries : ∀ e ∈ d₁.entries, ∃ f, d₂.entries.find? e.asKey.finds = some f := by
    intro e he
    obtain ⟨v, hv⟩ := found e he
    obtain ⟨f, hf, -⟩ := Option.map_eq_some_iff.1 hv
    exact ⟨f, hf⟩
  have subperm := (Value.tame_sound w).subperm_found h₁.fits.distinct
    (fun e he => h₁.part (Value.key_mem_parts he)) (fun f hf => h₂.part (Value.key_mem_parts hf)) entries
  simpa using subperm.length_le

/-- If the entries of each dict are found in the other, the dicts are equal: neither has more of them. -/
theorem beq_of_included (forth : ∀ e ∈ d₁.entries, ∃ v, d₂.find? e.asKey = some v ∧ (e.value == v) = true)
    (back : ∀ f ∈ d₂.entries, ∃ v, d₁.find? f.asKey = some v) : (Value.dict d₁ == Value.dict d₂) = true := by
  apply Value.beq_of_same
  apply Value.Same.dict
  · apply Nat.le_antisymm
    · exact length_le_of_found h₁ h₂ fun e he => (forth e he).imp fun _ => And.left
    · exact length_le_of_found h₂ h₁ back
  · intro e he
    obtain ⟨v, found, equal⟩ := forth e he
    obtain ⟨f, hf, rfl⟩ := Option.map_eq_some_iff.1 found
    exact ⟨f, hf, equal⟩

theorem beq_of_agreeAt (self₁ : ∀ x ∈ d₁.keys, (x == x) = true) (self₂ : ∀ x ∈ d₂.keys, (x == x) = true)
    (agree₁ : ∀ x ∈ d₁.keys, AgreeAt d₁ d₂ x) (agree₂ : ∀ x ∈ d₂.keys, AgreeAt d₁ d₂ x) :
    (Value.dict d₁ == Value.dict d₂) = true := by
  apply beq_of_included h₁ h₂
  · intro e he
    have mem : e.key ∈ d₁.keys := List.mem_map_of_mem he
    exact (agree₁ _ mem).included (h₁.fits.hashed e he) e.value (find?_asKey h₁ he (self₁ _ mem))
  · intro f hf
    have mem : f.key ∈ d₂.keys := List.mem_map_of_mem hf
    have both := (agree₂ _ mem).isSome_eq (h₂.fits.hashed f hf)
    rw [← Entry.asKey, find?_asKey h₂ hf (self₂ _ mem)] at both
    exact Option.isSome_iff_exists.1 both

end Sound

/-- The bindings of a list of pairs, set one after the other. -/
def setAll (d : Dict Value) (ps : List (Value × Value)) : Except Error (Dict Value) :=
  ps.foldlM (fun d p => d.set p.1 p.2) d

end Dict

/-- The entry for a pair of which the key has a hash. -/
def Entry.ofPair (p : Value × Value) : Entry Value := ⟨p.1.hash.toOption.getD 0, p.1, p.2⟩

namespace Dict

variable {w : World} {d : Dict Value} {ps : List (Value × Value)}

theorem hash_ofPair {p : Value × Value} {hash : Int64} (hashed : p.1.hash = .ok hash) :
    p.1.hash = .ok (Entry.ofPair p).hash := by
  rw [Entry.ofPair, hashed]
  rfl

theorem setAll_eq (d : Dict Value) (hashed : ∀ p ∈ ps, ∃ hash, p.1.hash = .ok hash) :
    d.setAll ps = .ok (d.update ⟨ps.map .ofPair⟩) := by
  induction ps generalizing d with
  | nil => rfl
  | cons p ps ih =>
    obtain ⟨⟨hash, first⟩, others⟩ := List.forall_mem_cons.1 hashed
    rw [setAll, List.foldlM_cons, set_of_hash (hash_ofPair first)]
    exact ih _ others

/-- Entries that are found neither by those before nor by each other go to the end, in their order. -/
theorem update_eq_append {o : Dict Value} (apart : ∀ f ∈ o.entries, ∀ e ∈ d.entries, f.asKey.finds e = false)
    (distinct : o.entries.Pairwise fun e f => f.asKey.finds e = false) : d.update o = ⟨d.entries ++ o.entries⟩ := by
  obtain ⟨es⟩ := o
  induction es generalizing d with
  | nil => simp [update]
  | cons e es ih =>
    obtain ⟨first, others⟩ := List.forall_mem_cons.1 apart
    obtain ⟨later, rest⟩ := List.pairwise_cons.1 distinct
    have put : d.put e.asKey e.value = ⟨d.entries ++ [e]⟩ := congrArg Dict.mk (putEntry_of_misses first e.value)
    rw [update_cons, put, ih ?_ rest, List.append_assoc, List.singleton_append]
    intro f hf
    rw [List.forall_mem_append, List.forall_mem_singleton]
    exact ⟨others f hf, later f hf⟩

/-- Putting the entries of a dict into an empty one gives the dict. -/
theorem empty_update {o : Dict Value} (ho : (Value.dict o).Sound w) : empty.update o = o := by
  apply update_eq_append fun _ _ _ none => absurd none List.not_mem_nil
  apply ho.fits.distinct.imp_of_mem
  intro e f he hf apart
  rw [← Bool.not_eq_true]
  intro found
  have keys (g : Entry Value) (hg : g ∈ o.entries) : g.key.Sound w := ho.part (Value.key_mem_parts hg)
  exact apart ((Value.tame_sound w).finds_symm (keys f hf) (keys e he) found)

theorem sound_ofPairs (sound : ∀ p ∈ ps, p.1.Sound w ∧ p.2.Sound w) (hashed : ∀ p ∈ ps, ∃ hash, p.1.hash = .ok hash)
    (apart : ps.Pairwise fun p q => (p.1 == q.1) = false) : (Value.dict ⟨ps.map .ofPair⟩).Sound w := by
  rw [sound_iff, List.map_map, List.pairwise_map, List.forall_mem_map]
  refine ⟨apart.imp ?_, ?_, ?_⟩
  · intro p q unequal found
    exact Bool.eq_false_iff.1 unequal (Bool.and_eq_true_iff.1 found).2
  · intro p hp
    obtain ⟨hash, given⟩ := hashed p hp
    exact ⟨(sound p hp).1, hash_ofPair given⟩
  · rw [Items.Sound, values, List.map_map, List.forall_mem_map]
    exact fun p hp => (sound p hp).2

theorem apart_of_perm {qs : List (Value × Value)} (sound : ∀ p ∈ ps, p.1.Sound w ∧ p.2.Sound w) (perm : ps.Perm qs)
    (apart : ps.Pairwise fun p q => (p.1 == q.1) = false) : qs.Pairwise fun p q => (p.1 == q.1) = false := by
  have both : ps.Pairwise fun p q => (p.1 == q.1) = false ∧ (q.1 == p.1) = false := by
    apply apart.imp_of_mem
    intro p q hp hq unequal
    refine ⟨unequal, Bool.eq_false_iff.2 fun equal => Bool.eq_false_iff.1 unequal ?_⟩
    exact (Value.tame_sound w).symm _ _ (sound q hq).1 (sound p hp).1 equal
  exact (perm.pairwise both And.symm).imp And.left

/-- The same entries in another order. -/
theorem beq_of_perm {d₁ d₂ : Dict Value} (h₁ : (Value.dict d₁).Sound w) (h₂ : (Value.dict d₂).Sound w)
    (perm : d₁.entries.Perm d₂.entries)
    (self : ∀ e ∈ d₁.entries, (e.key == e.key) = true ∧ (e.value == e.value) = true) :
    (Value.dict d₁ == Value.dict d₂) = true := by
  apply beq_of_included h₁ h₂
  · intro e he
    exact ⟨e.value, find?_asKey h₂ (perm.mem_iff.1 he) (self e he).1, (self e he).2⟩
  · intro f hf
    have he := perm.mem_iff.2 hf
    exact ⟨f.value, find?_asKey h₁ he (self f he).1⟩

theorem setAll_of_apart (sound : ∀ p ∈ ps, p.1.Sound w ∧ p.2.Sound w)
    (hashed : ∀ p ∈ ps, ∃ hash, p.1.hash = .ok hash) (apart : ps.Pairwise fun p q => (p.1 == q.1) = false) :
    empty.setAll ps = .ok ⟨ps.map .ofPair⟩ := by
  rw [setAll_eq empty hashed, empty_update (sound_ofPairs sound hashed apart)]

end Dict

namespace Session

/-- A value that some program leads to from the session. -/
def Attains (s : Session) (v : Value) : Prop := ∃ watch calls, (s.run watch calls).2.Holds v

variable {s : Session} {w : World} {v x : Value}

theorem Holds.attains (h : s.Holds v) : s.Attains v := ⟨[], [], h⟩

theorem Attains.exists_sound (h : s.Attains v) (hs : s.Sound w) : ∃ later, w.Extends later ∧ v.Sound later := by
  obtain ⟨watch, calls, held⟩ := h
  obtain ⟨later, leads⟩ := leads_run hs watch calls
  exact ⟨later, leads.store.grows, leads.sound.of_holds held⟩

end Session

/-- Dicts of which the keys are equal to themselves are equal if and only if every key with a hash that a program
can come to is in both, with equal values, or in neither. Bindings that are set in two orders make equal dicts, if
their keys are pairwise unequal and all keys and values equal to themselves. -/
theorem dict_equality_extensional {s : Session} (reachable : s.Reachable) :
    (∀ d₁ d₂ : Dict Value, s.Holds (.dict d₁) → s.Holds (.dict d₂) → (∀ x ∈ d₁.keys, (x == x) = true) →
      (∀ x ∈ d₂.keys, (x == x) = true) →
      ((Value.dict d₁ == Value.dict d₂) = true ↔
        ∀ key hash, s.Attains key → key.hash = .ok hash → d₁.AgreeAt d₂ key)) ∧
    ∀ ps qs : List (Value × Value), ps.Perm qs → (∀ p ∈ ps, s.Holds p.1 ∧ s.Holds p.2) →
      (∀ p ∈ ps, ∃ hash, p.1.hash = .ok hash) → (ps.Pairwise fun p q => (p.1 == q.1) = false) →
      (∀ p ∈ ps, (p.1 == p.1) = true ∧ (p.2 == p.2) = true) →
      ∃ d₁ d₂, Dict.empty.setAll ps = .ok d₁ ∧ Dict.empty.setAll qs = .ok d₂ ∧
        (Value.dict d₁ == Value.dict d₂) = true := by
  obtain ⟨w, hs⟩ := reachable.exists_sound
  constructor
  · intro d₁ d₂ held₁ held₂ self₁ self₂
    have h₁ := hs.of_holds held₁
    have h₂ := hs.of_holds held₂
    constructor
    · intro equal key hash attained hashed
      obtain ⟨later, grows, hk⟩ := attained.exists_sound hs
      have back := (Value.tame_sound w).symm _ _ h₁ h₂ equal
      exact Dict.agreeAt_of_included hashed (Dict.included_of_beq (h₁.mono grows) (h₂.mono grows) ⟨hk, hashed⟩ equal)
        (Dict.included_of_beq (h₂.mono grows) (h₁.mono grows) ⟨hk, hashed⟩ back)
    · intro agree
      apply Dict.beq_of_agreeAt h₁ h₂ self₁ self₂
      · refine List.forall_mem_map.2 fun e he => ?_
        exact agree _ _ (held₁.part (Value.key_mem_parts he)).attains (h₁.fits.hashed e he)
      · refine List.forall_mem_map.2 fun f hf => ?_
        exact agree _ _ (held₂.part (Value.key_mem_parts hf)).attains (h₂.fits.hashed f hf)
  · intro ps qs perm held hashed apart self
    have sound (p : Value × Value) (hp : p ∈ ps) : p.1.Sound w ∧ p.2.Sound w :=
      ⟨hs.of_holds (held p hp).1, hs.of_holds (held p hp).2⟩
    have other (p : Value × Value) (hp : p ∈ qs) : p ∈ ps := perm.mem_iff.2 hp
    have apart' := Dict.apart_of_perm sound perm apart
    have h₁ := Dict.sound_ofPairs sound hashed apart
    have h₂ := Dict.sound_ofPairs (fun p hp => sound p (other p hp)) (fun p hp => hashed p (other p hp)) apart'
    refine ⟨_, _, Dict.setAll_of_apart sound hashed apart,
      Dict.setAll_of_apart (fun p hp => sound p (other p hp)) (fun p hp => hashed p (other p hp)) apart', ?_⟩
    exact Dict.beq_of_perm h₁ h₂ (perm.map _) (List.forall_mem_map.2 self)

namespace Shuffle

/-- Two equal dicts with their bindings in different orders and under keys of different kinds. -/
def program : List Call :=
  [⟨.query .identity [.dict [(.int 1, .none), (.int 2, .bool true)]], some "first"⟩,
    ⟨.query .identity [.dict [(.int 2, .int 1), (.bool true, .none)]], some "second"⟩]

def session : Session := (Session.empty.run [] program).2

def first : Dict Value := ⟨[⟨1, .int 1, .none⟩, ⟨2, .int 2, .bool true⟩]⟩

def second : Dict Value := ⟨[⟨2, .int 2, .int 1⟩, ⟨1, .bool true, .none⟩]⟩

/-- The bindings of the first dict. -/
def bindings : List (Value × Value) := [(.int 1, .none), (.int 2, .bool true)]

theorem vars_session : session.vars = [("second", .dict second), ("first", .dict first)] := rfl

theorem reachable_session : session.Reachable := ⟨[], program, rfl⟩

theorem holds_first : session.Holds (.dict first) := .of_var "first" (by simp [vars_session])

theorem holds_second : session.Holds (.dict second) := .of_var "second" (by simp [vars_session])

theorem holds_bindings : ∀ p ∈ bindings, session.Holds p.1 ∧ session.Holds p.2 := by
  have part {x : Value} (mem : x ∈ (Value.dict first).parts) : session.Holds x := holds_first.part mem
  simp only [bindings, List.forall_mem_cons]
  exact ⟨⟨part (by simp [Value.parts, first]), part (by simp [Value.parts, first])⟩,
    ⟨part (by simp [Value.parts, first]), part (by simp [Value.parts, first])⟩, nofun⟩

theorem hashed_bindings : ∀ p ∈ bindings, ∃ hash, p.1.hash = .ok hash := by
  simp only [bindings, List.forall_mem_cons]
  exact ⟨⟨1, rfl⟩, ⟨2, rfl⟩, nofun⟩

theorem apart_bindings : bindings.Pairwise fun p q => (p.1 == q.1) = false := by
  simp only [bindings, List.pairwise_cons, List.forall_mem_cons]
  decide

end Shuffle

/-- The dicts agree at the truth value, which is a key of one and equal to a key of the other. -/
theorem shuffle_equal :
    (Value.dict Shuffle.first == Value.dict Shuffle.second) = true ∧
    Shuffle.first.AgreeAt Shuffle.second (.bool true) ∧
    ∃ d₁ d₂, Dict.empty.setAll Shuffle.bindings = .ok d₁ ∧ Dict.empty.setAll Shuffle.bindings.reverse = .ok d₂ ∧
      (Value.dict d₁ == Value.dict d₂) = true := by
  obtain ⟨extensional, shuffled⟩ := dict_equality_extensional Shuffle.reachable_session
  have equal : (Value.dict Shuffle.first == Value.dict Shuffle.second) = true := by decide
  have agree := (extensional _ _ Shuffle.holds_first Shuffle.holds_second (by decide) (by decide)).1 equal
  have held : Shuffle.session.Holds (.bool true) :=
    Shuffle.holds_second.part (by simp [Value.parts, Shuffle.second])
  refine ⟨equal, agree (.bool true) 1 held.attains rfl, ?_⟩
  exact shuffled _ _ (List.reverse_perm _).symm Shuffle.holds_bindings Shuffle.hashed_bindings Shuffle.apart_bindings
    (by decide)

end DynamicValues
