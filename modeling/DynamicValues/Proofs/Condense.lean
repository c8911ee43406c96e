import DynamicValues.Proofs.Edits
import DynamicValues.Proofs.Extensionality

/-!
What is left of a sequence of bindings that are put one after the other. Bindings of equal keys make up a class, and a
binding whose key differs from itself is a class of its own. Each class has one entry, with the key of its first
binding and in that place, and with the value of its last binding.
-/

set_option autoImplicit false

namespace DynamicValues

namespace Entry

/-- Two bindings of a sequence are the same one, or have equal keys. -/
def Kin (bs : List (Entry Value)) (i j : Nat) : Prop :=
  i = j ∨ ∃ b c, bs[i]? = some b ∧ bs[j]? = some c ∧ (b.key == c.key) = true

/-- An entry that stands for a class of bindings, which begins and ends at the given ones. -/
structure StandsFor (bs : List (Entry Value)) (e : Entry Value) (first last : Nat) : Prop where
  key : bs[first]?.map asKey = some e.asKey
  value : bs[last]?.map Entry.value = some e.value
  kin : Kin bs first last
  least : ∀ j, j < bs.length → Kin bs first j → first ≤ j
  greatest : ∀ j, j < bs.length → Kin bs first j → j ≤ last

theorem exists_of_forall₂ {α β : Type} {R : α → β → Prop} {xs : List α} {ys : List β} (h : List.Forall₂ R xs ys)
    {x : α} (hx : x ∈ xs) : ∃ y ∈ ys, R x y := by
  induction h with
  | nil => cases hx
  | cons head _ ih =>
    rcases List.mem_cons.1 hx with rfl | later
    · exact ⟨_, List.mem_cons_self, head⟩
    · obtain ⟨y, hy, related⟩ := ih later
      exact ⟨y, List.mem_cons_of_mem _ hy, related⟩

/-- The entries stand for the classes of the bindings, one for each class, in the order in which the classes begin. -/
def Condenses (bs es : List (Entry Value)) : Prop :=
  ∃ spans : List (Nat × Nat), List.Forall₂ (fun span e => StandsFor bs e span.1 span.2) spans es ∧
    (spans.map Prod.fst).Pairwise (· < ·) ∧ ∀ j, j < bs.length → ∃ first ∈ spans.map Prod.fst, Kin bs first j

variable {bs : List (Entry Value)} {b e : Entry Value} {i j first last : Nat}

section Append

theorem getElem?_append_of_some {c : Entry Value} (h : bs[i]? = some c) (b : Entry Value) :
    (bs ++ [b])[i]? = some c := by
  rw [List.getElem?_append_left (List.getElem?_eq_some_iff.1 h).1, h]

theorem Kin.append (h : Kin bs i j) (b : Entry Value) : Kin (bs ++ [b]) i j := by
  rcases h with same | ⟨c, d, hi, hj, equal⟩
  · exact .inl same
  · exact .inr ⟨c, d, getElem?_append_of_some hi b, getElem?_append_of_some hj b, equal⟩

theorem Kin.of_append (hi : i < bs.length) (hj : j < bs.length) (h : Kin (bs ++ [b]) i j) : Kin bs i j := by
  rcases h with same | ⟨c, d, atI, atJ, equal⟩
  · exact .inl same
  · rw [List.getElem?_append_left hi] at atI
    rw [List.getElem?_append_left hj] at atJ
    exact .inr ⟨c, d, atI, atJ, equal⟩

theorem kin_length_iff {c : Entry Value} (hi : bs[i]? = some c) :
    Kin (bs ++ [b]) i bs.length ↔ (c.key == b.key) = true := by
  have lt := (List.getElem?_eq_some_iff.1 hi).1
  constructor
  · rintro (same | ⟨c', b', atI, atEnd, equal⟩)
    · omega
    · obtain rfl := Option.some.inj ((getElem?_append_of_some hi b).symm.trans atI)
      obtain rfl : b = b' := by simpa using atEnd
      exact equal
  · intro equal
    exact .inr ⟨c, b, getElem?_append_of_some hi b, List.getElem?_concat_length, equal⟩

namespace StandsFor

theorem exists_first (h : StandsFor bs e first last) : ∃ c, bs[first]? = some c ∧ c.key = e.key ∧ c.hash = e.hash := by
  obtain ⟨c, found, same⟩ := Option.map_eq_some_iff.1 h.key
  exact ⟨c, found, congrArg Key.value same, congrArg Key.hash same⟩

theorem first_lt (h : StandsFor bs e first last) : first < bs.length := by
  obtain ⟨c, found, -⟩ := h.exists_first
  exact (List.getElem?_eq_some_iff.1 found).1

theorem kin_length_iff (h : StandsFor bs e first last) :
    Kin (bs ++ [b]) first bs.length ↔ (e.key == b.key) = true := by
  obtain ⟨c, found, same, -⟩ := h.exists_first
  rw [Entry.kin_length_iff found, same]

/-- A binding of another class leaves the entry alone. -/
theorem append_other (h : StandsFor bs e first last) (other : (e.key == b.key) = false) :
    StandsFor (bs ++ [b]) e first last := by
  have apart : ¬Kin (bs ++ [b]) first bs.length := fun kin => Bool.eq_false_iff.1 other (h.kin_length_iff.1 kin)
  obtain ⟨c, atFirst, key⟩ := Option.map_eq_some_iff.1 h.key
  obtain ⟨d, atLast, value⟩ := Option.map_eq_some_iff.1 h.value
  have old {j : Nat} (hj : j < (bs ++ [b]).length) (kin : Kin (bs ++ [b]) first j) : j < bs.length := by
    rcases Nat.lt_or_eq_of_le (Nat.le_of_lt_succ (by simpa using hj)) with lt | rfl
    · exact lt
    · exact absurd kin apart
  refine ⟨?_, ?_, h.kin.append b, ?_, ?_⟩
  · rw [getElem?_append_of_some atFirst]
    exact congrArg some key
  · rw [getElem?_append_of_some atLast]
    exact congrArg some value
  · intro j hj kin
    exact h.least j (old hj kin) (kin.of_append h.first_lt (old hj kin))
  · intro j hj kin
    exact h.greatest j (old hj kin) (kin.of_append h.first_lt (old hj kin))

/-- A binding of the class gives the entry its value. -/
theorem append_kin (h : StandsFor bs e first last) (equal : (e.key == b.key) = true) :
    StandsFor (bs ++ [b]) ⟨e.hash, e.key, b.value⟩ first bs.length := by
  obtain ⟨c, atFirst, key⟩ := Option.map_eq_some_iff.1 h.key
  refine ⟨?_, ?_, h.kin_length_iff.2 equal, ?_, ?_⟩
  · rw [getElem?_append_of_some atFirst]
    exact congrArg some key
  · rw [List.getElem?_concat_length]
    rfl
  · intro j hj kin
    rcases Nat.lt_or_eq_of_le (Nat.le_of_lt_succ (by simpa using hj)) with lt | rfl
    · exact h.least j lt (kin.of_append h.first_lt lt)
    · exact h.first_lt.le
  · intro j hj _
    simpa [Nat.lt_succ_iff] using hj

end StandsFor
end Append

namespace Condenses

variable {w : World} {d : Dict Value}

theorem nil : Condenses [] [] := ⟨[], .nil, .nil, fun _ none => absurd none (Nat.not_lt_zero _)⟩

/-- Each binding has the key of an entry or one that is equal to it. -/
theorem exists_entry {es : List (Entry Value)} {c : Entry Value} (h : Condenses bs es) (hc : bs[j]? = some c) :
    ∃ e ∈ es, e.key = c.key ∨ (e.key == c.key) = true := by
  obtain ⟨spans, stands, -, covers⟩ := h
  obtain ⟨first, mem, kin⟩ := covers j (List.getElem?_eq_some_iff.1 hc).1
  obtain ⟨span, hspan, rfl⟩ := List.mem_map.1 mem
  obtain ⟨e, he, standsFor⟩ := exists_of_forall₂ stands hspan
  obtain ⟨b, atFirst, same, -⟩ := standsFor.exists_first
  refine ⟨e, he, ?_⟩
  rcases kin with rfl | ⟨b', c', atFirst', atJ, equal⟩
  · obtain rfl := Option.some.inj (atFirst.symm.trans hc)
    exact .inl same.symm
  · obtain rfl := Option.some.inj (atFirst.symm.trans atFirst')
    obtain rfl := Option.some.inj (atJ.symm.trans hc)
    exact .inr (same ▸ equal)

/-- A binding that no entry is equal to begins a class of its own. -/
theorem standsFor_last {es : List (Entry Value)} (h : Condenses bs es) (keys : ∀ c ∈ bs, c.key.Sound w)
    (entries : ∀ e ∈ es, e.key.Sound w) (hb : b.key.Sound w) (lacks : Lacks b.key es) :
    StandsFor (bs ++ [b]) b bs.length bs.length := by
  have tame := Value.tame_sound w
  have here : (bs ++ [b])[bs.length]? = some b := List.getElem?_concat_length
  have alone : ∀ j, j < (bs ++ [b]).length → Kin (bs ++ [b]) bs.length j → j = bs.length := by
    rintro j hj (same | ⟨b', c, atEnd, atJ, equal⟩)
    · exact same.symm
    · obtain rfl := Option.some.inj (here.symm.trans atEnd)
      by_contra other
      rw [List.length_append, List.length_singleton] at hj
      rw [List.getElem?_append_left (by omega)] at atJ
      obtain ⟨e, he, same⟩ := h.exists_entry atJ
      have hc := keys c (List.mem_of_getElem? atJ)
      have back := tame.symm _ _ hb hc equal
      apply Bool.eq_false_iff.1 (lacks e he)
      rcases same with same | equal'
      · rwa [same]
      · exact tame.trans _ _ _ (entries e he) hc hb equal' back
  refine ⟨congrArg (Option.map asKey) here, congrArg (Option.map Entry.value) here, .inl rfl, ?_, ?_⟩
  · intro j hj kin
    exact (alone j hj kin).ge
  · intro j hj kin
    exact (alone j hj kin).le

theorem covers_append {firsts : List Nat} (covers : ∀ j, j < bs.length → ∃ first ∈ firsts, Kin bs first j)
    (new : ∃ first ∈ firsts, Kin (bs ++ [b]) first bs.length) :
    ∀ j, j < (bs ++ [b]).length → ∃ first ∈ firsts, Kin (bs ++ [b]) first j := by
  intro j hj
  rw [List.length_append, List.length_singleton] at hj
  rcases Nat.lt_or_eq_of_le (Nat.le_of_lt_succ hj) with lt | rfl
  · obtain ⟨first, mem, kin⟩ := covers j lt
    exact ⟨first, mem, kin.append b⟩
  · exact new

/-- One more binding is put: the entry of its class takes over its value, or there is a new entry. -/
theorem step (h : Condenses bs d.entries) (keys : ∀ c ∈ bs, c.key.Sound w) (hd : (Value.dict d).Sound w)
    (hb : b.asKey.Sound w) : Condenses (bs ++ [b]) (d.put b.asKey b.value).entries := by
  have binds := Dict.binds_put hd hb b.value
  generalize (d.put b.asKey b.value).entries = later at binds
  obtain ⟨spans, stands, ascending, covers⟩ := id h
  cases binds with
  | @replace before after e among =>
    obtain ⟨othersBefore, othersAfter⟩ := List.forall_mem_append.1 among.others
    rw [among.split] at stands
    have front := List.forall₂_take_append _ _ _ stands
    have back := List.forall₂_drop_append _ _ _ stands
    have whole := List.take_append_drop before.length spans
    generalize spans.take before.length = ahead at front whole
    obtain ⟨span, behind, here, tail, split⟩ := List.forall₂_cons_right_iff.1 back
    rw [split] at whole
    have firsts : (ahead ++ (span.1, bs.length) :: behind).map Prod.fst = spans.map Prod.fst := by
      rw [← whole, List.map_append, List.map_append, List.map_cons, List.map_cons]
    refine ⟨ahead ++ (span.1, bs.length) :: behind, ?_, ?_, ?_⟩
    · apply List.rel_append
      · exact Value.forall₂_imp_of_mem (fun _ _ f hf stands => stands.append_other (othersBefore f hf)) front
      · refine .cons (here.append_kin among.equal) ?_
        exact Value.forall₂_imp_of_mem (fun _ _ f hf stands => stands.append_other (othersAfter f hf)) tail
    · rw [firsts]
      exact ascending
    · rw [firsts]
      refine covers_append covers ⟨span.1, ?_, here.kin_length_iff.2 among.equal⟩
      rw [← whole, List.map_append, List.map_cons]
      exact List.mem_append_right _ List.mem_cons_self
  | @append hash hashed lacks =>
    obtain rfl : b.hash = hash := Except.ok.inj (hb.hash.symm.trans hashed)
    have entries : ∀ e ∈ d.entries, e.key.Sound w := fun e he => hd.part (Value.key_mem_parts he)
    have new := h.standsFor_last keys entries hb.value lacks
    refine ⟨spans ++ [(bs.length, bs.length)], ?_, ?_, ?_⟩
    · apply List.rel_append
      · exact Value.forall₂_imp_of_mem (fun _ _ f hf stands => stands.append_other (lacks f hf)) stands
      · exact .cons new .nil
    · rw [List.map_append, List.pairwise_append]
      refine ⟨ascending, List.pairwise_singleton _ _, ?_⟩
      rw [List.forall_mem_map]
      intro span hspan last hlast
      obtain ⟨e, -, standsFor⟩ := exists_of_forall₂ stands hspan
      rw [List.mem_singleton.1 hlast]
      exact standsFor.first_lt
    · rw [List.map_append]
      apply covers_append
      · intro j hj
        obtain ⟨first, mem, kin⟩ := covers j hj
        exact ⟨first, List.mem_append_left _ mem, kin⟩
      · exact ⟨bs.length, List.mem_append_right _ List.mem_cons_self, .inl rfl⟩

/-- Bindings that are put one after the other, beginning with none. -/
theorem run (keys : ∀ b ∈ bs, b.asKey.Sound w) (values : ∀ b ∈ bs, b.value.Sound w) :
    (Value.dict (Dict.empty.update ⟨bs⟩)).Sound w ∧ Condenses bs (Dict.empty.update ⟨bs⟩).entries := by
  induction bs using List.reverseRecOn with
  | nil => exact ⟨Dict.sound_empty w, nil⟩
  | append_singleton bs b ih =>
    rw [List.forall_mem_append, List.forall_mem_singleton] at keys values
    obtain ⟨sound, condenses⟩ := ih keys.1 values.1
    have last : Dict.empty.update ⟨bs ++ [b]⟩ = (Dict.empty.update ⟨bs⟩).put b.asKey b.value :=
      List.foldl_append
    rw [last]
    exact ⟨Dict.sound_put sound keys.2 values.2, condenses.step (fun c hc => (keys.1 c hc).value) sound keys.2⟩

end Condenses
end Entry
end DynamicValues
