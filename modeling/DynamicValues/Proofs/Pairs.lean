import DynamicValues.Proofs.Condense
import DynamicValues.Proofs.Consume
import DynamicValues.Proofs.Contents

/-!
Dicts from sequences of pairs. The elements are walked in order, each to its end, and the first one that is no pair
with a key that has a hash decides the error. Iterators among the elements are consumed on the way, so that they have
to be different ones for each to be seen as it was at the start. The bindings that they stand for are then put one
after the other. A dict comes back from its own pairs, and taking its bindings out one by one gives the same pairs.
-/

set_option autoImplicit false

namespace DynamicValues

/-- An element with two items, the key of the binding, which has that hash, and its value. -/
structure Entry.Unpacks (s : Store) (x : Value) (b : Entry Value) : Prop where
  items : x.items? s = some [b.key, b.value]
  hash : b.key.hash = .ok b.hash

/-- Why the element at a position is no binding. -/
inductive Value.Unfit (s : Store) (position : Nat) (x : Value) : Error → Prop
  | notIterable (absent : x.items? s = Option.none) : Unfit s position x (.notPair position x.kind)
  | wrongLength {items : List Value} (given : x.items? s = some items) (length : items.length ≠ 2) :
      Unfit s position x (.pairLength position items.length)
  | unhashable {key v : Value} {e : Error} (given : x.items? s = some [key, v]) (failed : key.hash = .error e) :
      Unfit s position x e

section Elements

variable {s t : Store} {x : Value} {b : Entry Value} {e : Error} {position : Nat}

theorem Value.unpacks_or_unfit (s : Store) (position : Nat) (x : Value) :
    (∃ b, Entry.Unpacks s x b) ∨ ∃ e, x.Unfit s position e := by
  cases given : x.items? s with
  | none => exact .inr ⟨_, .notIterable given⟩
  | some items =>
    by_cases length : items.length = 2
    · obtain ⟨key, v, rfl⟩ := List.length_eq_two.1 length
      cases hashed : key.hash with
      | error e => exact .inr ⟨e, .unhashable given hashed⟩
      | ok hash => exact .inl ⟨⟨hash, key, v⟩, given, hashed⟩
    · exact .inr ⟨_, .wrongLength given length⟩

theorem Entry.Unpacks.not_unfit (h : Unpacks s x b) : ¬x.Unfit s position e := by
  intro unfit
  cases unfit with
  | notIterable absent => cases absent.symm.trans h.items
  | wrongLength given length =>
    cases given.symm.trans h.items
    exact length rfl
  | unhashable given failed =>
    cases given.symm.trans h.items
    cases failed.symm.trans h.hash

theorem Value.Unfit.category_eq (h : x.Unfit s position e) :
    e.category = if (x.items? s).any (·.length != 2) then .valueError else .typeError := by
  cases h with
  | notIterable absent => simp [absent, Error.category]
  | wrongLength given length => simp [given, length, Error.category]
  | @unhashable key _ _ given failed =>
    rcases key.hash_cases with ⟨n, hashed⟩ | ⟨kind, hashed⟩
    · cases hashed.symm.trans failed
    · cases hashed.symm.trans failed
      simp [given, Error.category]

theorem Entry.Unpacks.congr (h : Unpacks s x b) (same : x.items? t = x.items? s) : Unpacks t x b :=
  ⟨same.trans h.items, h.hash⟩

theorem Items.unpacks_congr {xs : List Value} {bs : List (Entry Value)} (same : ∀ x ∈ xs, x.items? t = x.items? s)
    (unpacks : List.Forall₂ (Entry.Unpacks s) xs bs) : List.Forall₂ (Entry.Unpacks t) xs bs :=
  Value.forall₂_imp_of_mem (fun x hx _ _ unpacks => unpacks.congr (same x hx)) unpacks

theorem Value.Unfit.congr (h : x.Unfit s position e) (same : x.items? t = x.items? s) : x.Unfit t position e := by
  cases h with
  | notIterable absent => exact .notIterable (same.trans absent)
  | wrongLength given length => exact .wrongLength (same.trans given) length
  | unhashable given failed => exact .unhashable (same.trans given) failed

end Elements

section SetPair

variable {s t : Store} {x : Value} {items : List Value} {b : Entry Value} {e : Error} {i position : Nat}

/-- Sets the binding that two items stand for. -/
def Dict.setItems (position : Nat) (d : Dict Value) : List Value → Except Error (Dict Value)
  | [key, v] => d.set key v
  | items => .error (.pairLength position items.length)

theorem Dict.setItems_of_length (d : Dict Value) (length : items.length ≠ 2) :
    d.setItems position items = .error (.pairLength position items.length) := by
  rcases items with _ | ⟨_, _ | ⟨_, _ | _⟩⟩
  · rfl
  · rfl
  · exact absurd rfl length
  · rfl

theorem Enters.exec_setPair (h : Enters x s items i t) (position : Nat) (d : Dict Value) :
    exec (Run.setPair position d x) s = (d.setItems position items, t.skip i items.length) := by
  rw [Run.setPair, exec_bind, exec_tryCatch, h.found]
  dsimp only
  rw [exec_bind, h.exec_drain]
  rcases items with _ | ⟨_, _ | ⟨_, _ | _⟩⟩ <;> rfl

theorem Run.exec_setPair_of_items (given : x.items? s = some items) (position : Nat) (d : Dict Value) :
    ∃ t, exec (setPair position d x) s = (d.setItems position items, t) ∧ s.Consumed x t ∧
      s.cursors.size ≤ t.cursors.size := by
  obtain ⟨i, t, enters⟩ := Value.exists_enters given
  have unmoved := still_cursorOf x s
  rw [enters.found] at unmoved
  refine ⟨_, enters.exec_setPair position d, enters.consumed, ?_⟩
  rw [Store.size_skip]
  exact unmoved.size_le

theorem Run.exec_setPair_of_unpacks (h : b.Unpacks s x) (position : Nat) (d : Dict Value) :
    ∃ t, exec (setPair position d x) s = (.ok (d.put b.asKey b.value), t) ∧ s.Consumed x t ∧
      s.cursors.size ≤ t.cursors.size := by
  have set : d.setItems position [b.key, b.value] = .ok (d.put b.asKey b.value) := Dict.set_of_hash h.hash d b.value
  obtain ⟨t, ran, later⟩ := exec_setPair_of_items h.items position d
  exact ⟨t, set ▸ ran, later⟩

theorem Run.exec_setPair_of_unfit (h : x.Unfit s position e) (d : Dict Value) :
    ∃ t, exec (setPair position d x) s = (.error e, t) := by
  cases h with
  | notIterable absent =>
    refine ⟨s, ?_⟩
    cases x with
    | str _ | tuple _ _ | list _ | dict _ | iter _ => cases absent
    | _ => rfl
  | wrongLength given length =>
    obtain ⟨t, ran, -⟩ := exec_setPair_of_items given position d
    exact ⟨t, d.setItems_of_length length ▸ ran⟩
  | @unhashable key v _ given failed =>
    have set : d.setItems position [key, v] = .error e := by
      rw [Dict.setItems, Dict.set_eq]
      exact Key.of_bind_of_unhashable failed _
    obtain ⟨t, ran, -⟩ := exec_setPair_of_items given position d
    exact ⟨t, set ▸ ran⟩

end SetPair

/-- Elements that are iterators are different ones. -/
def Items.IteratorsApart (xs : List Value) : Prop := xs.Pairwise fun x y => ∀ j, x = .iter j → y ≠ .iter j

/-- A cursor is about to see elements of which none is an iterator on the cursor itself or on another element. -/
structure Store.Reads (i : Nat) (xs : List Value) (s : Store) : Prop where
  rest : (s.cursor i).rest = xs
  made : i < s.cursors.size
  others : ∀ j, .iter j ∈ xs → j < s.cursors.size ∧ j ≠ i
  apart : Items.IteratorsApart xs

theorem Value.items?_congr {s t : Store} {x : Value} (same : ∀ j, x = .iter j → t.cursor j = s.cursor j) :
    x.items? t = x.items? s := by
  cases x with
  | iter j => exact congrArg (fun c => some c.rest) (same j rfl)
  | _ => rfl

namespace Store.Reads

variable {s t : Store} {x : Value} {xs : List Value} {i : Nat}

theorem items?_head (h : s.Reads i (x :: xs)) : x.items? (s.skip i 1) = x.items? s := by
  apply Value.items?_congr
  rintro j rfl
  exact cursor_skip_of_ne (h.others j List.mem_cons_self).2.symm 1

/-- When an element has been consumed, the elements after it are as they were. -/
theorem tail (h : s.Reads i (x :: xs)) (consumed : (s.skip i 1).Consumed x t)
    (grows : (s.skip i 1).cursors.size ≤ t.cursors.size) :
    t.Reads i xs ∧ ∀ y ∈ xs, y.items? t = y.items? s := by
  rw [size_skip] at grows
  have kept (j : Nat) (made : j < s.cursors.size) (other : x ≠ .iter j) : t.cursor j = (s.skip i 1).cursor j :=
    consumed.others j (by rwa [size_skip]) other
  obtain ⟨apart, rest⟩ := List.pairwise_cons.1 h.apart
  have outer : x ≠ .iter i := by
    rintro rfl
    exact (h.others i List.mem_cons_self).2 rfl
  constructor
  · refine ⟨?_, h.made.trans_le grows, ?_, rest⟩
    · rw [kept i h.made outer, rest_skip, h.rest, List.drop_one, List.tail_cons]
    · intro j hj
      obtain ⟨made, other⟩ := h.others j (List.mem_cons_of_mem _ hj)
      exact ⟨made.trans_le grows, other⟩
  · intro y hy
    apply Value.items?_congr
    rintro j rfl
    obtain ⟨made, other⟩ := h.others j (List.mem_cons_of_mem _ hy)
    rw [kept j made fun same => apart _ hy j same rfl, cursor_skip_of_ne other.symm]

end Store.Reads

namespace Run

variable {s : Store} {x : Value} {xs : List Value} {b : Entry Value} {bs : List (Entry Value)} {e : Error} {i n : Nat}

/-- What is done with an element, given its position and the dict so far. -/
def takePair (state : Nat × Dict Value) (pair : Value) : Run (Nat × Dict Value) := do
  return (state.1 + 1, ← setPair state.1 state.2 pair)

theorem exec_takePairs_cons (h : s.Reads i (x :: xs)) (rounds : Nat) (state : Nat × Dict Value) :
    exec (foldLoop i takePair (rounds + 1) state) s =
      exec (setPair state.1 state.2 x >>= fun d => foldLoop i takePair rounds (state.1 + 1, d)) (s.skip i 1) := by
  rw [foldLoop, exec_next_bind, Store.advance_of_rest_cons h.rest]
  dsimp only
  rw [takePair, bind_assoc]
  rfl

/-- A pair is put, and the walk goes on with the elements after it. -/
theorem exec_takePairs_of_head (h : s.Reads i (x :: xs)) (unpacks : b.Unpacks s x) (rounds n : Nat) (d : Dict Value) :
    ∃ t, t.Reads i xs ∧ (∀ y ∈ xs, y.items? t = y.items? s) ∧
      exec (foldLoop i takePair (rounds + 1) (n, d)) s =
        exec (foldLoop i takePair rounds (n + 1, d.put b.asKey b.value)) t := by
  obtain ⟨t, set, consumed, grows⟩ := exec_setPair_of_unpacks (unpacks.congr h.items?_head) n d
  obtain ⟨later, same⟩ := h.tail consumed grows
  refine ⟨t, later, same, ?_⟩
  rw [exec_takePairs_cons h, exec_bind, set]

/-- Elements that are all pairs are put one after the other. -/
theorem exec_takePairs_of_unpacks (h : s.Reads i xs) (unpacks : List.Forall₂ (Entry.Unpacks s) xs bs) (n : Nat)
    (d : Dict Value) :
    ∃ t, exec (foldLoop i takePair xs.length (n, d)) s = (.ok (n + xs.length, d.update ⟨bs⟩), t) := by
  induction xs generalizing s bs n d with
  | nil =>
    cases unpacks
    exact ⟨s, rfl⟩
  | cons x xs ih =>
    obtain ⟨b, bs, head, others, rfl⟩ := List.forall₂_cons_left_iff.1 unpacks
    obtain ⟨t, later, same, ran⟩ := exec_takePairs_of_head h head xs.length n d
    obtain ⟨u, ran'⟩ := ih later (Items.unpacks_congr same others) (n + 1) (d.put b.asKey b.value)
    refine ⟨u, ?_⟩
    rw [List.length_cons, ran, ran', Dict.update_cons, Nat.add_right_comm, Nat.add_assoc]

/-- The first element that is unfit ends the walk: by induction on the elements before it, each of which changes
the store that the others are seen in. -/
theorem exec_takePairs_of_unfit {before after : List Value} (h : s.Reads i (before ++ x :: after))
    (unpacks : List.Forall₂ (Entry.Unpacks s) before bs) (n : Nat) (unfit : x.Unfit s (n + before.length) e)
    (d : Dict Value) :
    ∃ t, exec (foldLoop i takePair (before ++ x :: after).length (n, d)) s = (.error e, t) := by
  induction before generalizing s bs n d with
  | nil =>
    rw [List.length_nil, Nat.add_zero] at unfit
    obtain ⟨t, failed⟩ := exec_setPair_of_unfit (unfit.congr h.items?_head) d
    refine ⟨t, ?_⟩
    rw [List.nil_append, List.length_cons, exec_takePairs_cons h, exec_bind]
    dsimp only
    rw [failed]
  | cons y before ih =>
    obtain ⟨b, bs, head, others, rfl⟩ := List.forall₂_cons_left_iff.1 unpacks
    obtain ⟨t, later, same, ran⟩ := exec_takePairs_of_head h head (before ++ x :: after).length n d
    have others' := Items.unpacks_congr (fun z hz => same z (List.mem_append_left _ hz)) others
    have position : n + (y :: before).length = n + 1 + before.length := by
      rw [List.length_cons]
      omega
    rw [position] at unfit
    have unfit' := unfit.congr (same x (List.mem_append_right _ List.mem_cons_self))
    obtain ⟨u, ran'⟩ := ih later others' (n + 1) unfit' (d.put b.asKey b.value)
    exact ⟨u, ran.trans ran'⟩

end Run

section Begin

variable {s t : Store} {w : World} {v : Value} {xs : List Value} {i : Nat}

theorem Store.Sound.of_mem_cursor (hs : s.Sound w) {x : Value} (hx : x ∈ (s.cursor i).items) : x.Sound w := by
  refine hs.items (s.cursor i) ?_ x hx
  simp [cursor, lt_size_of_mem_items hx]

theorem Cursor.mem_items_of_mem_rest {c : Cursor} {x : Value} (hx : x ∈ c.rest) : x ∈ c.items := by
  simpa using List.mem_of_mem_drop hx

theorem Value.Sound.items? (hv : v.Sound w) (hs : s.Sound w) (given : v.items? s = some xs) :
    Items.Sound w xs := by
  cases v with
  | iter i =>
    cases given
    intro x hx
    exact hs.of_mem_cursor (Cursor.mem_items_of_mem_rest hx)
  | str t =>
    cases given
    rw [Items.Sound, List.forall_mem_map]
    intro letter _
    exact Value.sound_str w letter
  | tuple i ys =>
    cases given
    exact fun x hx => hv.part hx
  | list ys =>
    cases given
    exact fun x hx => hv.part hx
  | dict d =>
    cases given
    exact Dict.sound_keys hv
  | _ => cases given

theorem Run.exec_cursorOf_container (given : v.items? s = some xs) (container : v.kind ≠ .iter) :
    exec (cursorOf v) s = (.ok s.cursors.size, (s.addCursor xs).2) := by
  cases v with
  | iter i => exact absurd rfl container
  | str _ | tuple _ _ | list _ | dict _ =>
    cases given
    rfl
  | _ => cases given

/-- The walk of a value begins, with its elements as they were. -/
structure Value.Opens (v : Value) (s : Store) (xs : List Value) (i : Nat) (t : Store) : Prop where
  enters : Enters v s xs i t
  reads : t.Reads i xs
  same : ∀ x ∈ xs, x.items? t = x.items? s

theorem Value.exists_opens_container (given : v.items? s = some xs) (container : v.kind ≠ .iter)
    (old : ∀ j, .iter j ∈ xs → j < s.cursors.size) (apart : Items.IteratorsApart xs) :
    ∃ i t, v.Opens s xs i t := by
  obtain ⟨i, t, enters⟩ := exists_enters given
  cases (Run.exec_cursorOf_container given container).symm.trans enters.found
  refine ⟨_, _, enters, ⟨enters.rest, ?_, ?_, apart⟩, ?_⟩
  · rw [Store.size_addCursor]
    exact Nat.lt_succ_self _
  · intro j hj
    rw [Store.size_addCursor]
    exact ⟨Nat.lt_succ_of_lt (old j hj), (old j hj).ne⟩
  · intro x hx
    apply items?_congr
    rintro j rfl
    exact Store.cursor_addCursor_of_lt (old j hx)

theorem Value.exists_opens (hs : s.Sound w) (hv : v.Sound w) (given : v.items? s = some xs)
    (apart : Items.IteratorsApart xs) : ∃ i t, v.Opens s xs i t := by
  by_cases container : v.kind = .iter
  · cases v with
    | iter i =>
      obtain ⟨j, t, enters⟩ := exists_enters given
      cases enters.found
      have made : i < s.cursors.size := hs.size_eq ▸ hv.fits
      refine ⟨_, _, enters, ⟨enters.rest, made, ?_, apart⟩, fun _ _ => rfl⟩
      intro j hj
      rw [← enters.rest] at hj
      have older : j < i := hs.below_cursor i _ (Cursor.mem_items_of_mem_rest hj) j .here
      exact ⟨older.trans made, older.ne⟩
    | _ => cases container
  · apply exists_opens_container given container _ apart
    intro j hj
    rw [hs.size_eq]
    exact (hv.items? hs given _ hj).fits

end Begin

/-- An element is unfit, and none before it is. -/
def Items.FirstUnfit (s : Store) (xs : List Value) (e : Error) : Prop :=
  ∃ before x after, xs = before ++ x :: after ∧ (∀ y ∈ before, ∀ position f, ¬y.Unfit s position f) ∧
    x.Unfit s before.length e

section Outcome

variable {s t : Store} {v : Value} {xs : List Value} {bs : List (Entry Value)} {e : Error} {i : Nat}

theorem Items.exists_unpacks (fit : ∀ x ∈ xs, ∀ position e, ¬x.Unfit s position e) :
    ∃ bs, List.Forall₂ (Entry.Unpacks s) xs bs := by
  induction xs with
  | nil => exact ⟨[], .nil⟩
  | cons x xs ih =>
    obtain ⟨here, later⟩ := List.forall_mem_cons.1 fit
    obtain ⟨bs, unpacks⟩ := ih later
    rcases x.unpacks_or_unfit s 0 with ⟨b, head⟩ | ⟨e, unfit⟩
    · exact ⟨b :: bs, .cons head unpacks⟩
    · exact absurd unfit (here 0 e)

theorem Items.not_unfit (unpacks : List.Forall₂ (Entry.Unpacks s) xs bs) :
    ∀ x ∈ xs, ∀ position e, ¬x.Unfit s position e := by
  intro x hx position e
  obtain ⟨b, -, unpacks⟩ := Entry.exists_of_forall₂ unpacks hx
  exact unpacks.not_unfit

theorem Items.unpacks_or_firstUnfit (s : Store) (xs : List Value) :
    (∃ bs, List.Forall₂ (Entry.Unpacks s) xs bs) ∨ ∃ e, FirstUnfit s xs e := by
  induction xs using List.reverseRecOn with
  | nil => exact .inl ⟨[], .nil⟩
  | append_singleton xs x ih =>
    rcases ih with ⟨bs, unpacks⟩ | ⟨e, before, y, after, rfl, fit, unfit⟩
    · rcases x.unpacks_or_unfit s xs.length with ⟨b, last⟩ | ⟨e, unfit⟩
      · exact .inl ⟨bs ++ [b], List.rel_append unpacks (.cons last .nil)⟩
      · exact .inr ⟨e, xs, x, [], rfl, not_unfit unpacks, unfit⟩
    · exact .inr ⟨e, before, y, after ++ [x], by simp, fit, unfit⟩

/-- A dict is made of the elements of a value by the loop over them. -/
theorem Enters.exec_dict (h : Enters v s xs i t) :
    (exec (Run.dict v) s).1 =
      (exec (Run.foldLoop i Run.takePair xs.length (0, Dict.empty)) t).1.map fun state => .dict state.2 := by
  have loop : exec (Run.dictOf i) t =
      exec (do return (← Run.foldLoop i Run.takePair xs.length (0, Dict.empty)).2) t := by
    rw [← h.rest, Cursor.length_rest]
    rfl
  rw [Run.dict, exec_bind, h.found]
  dsimp only
  rw [exec_bind, loop, exec_bind]
  rcases exec (Run.foldLoop i Run.takePair xs.length (0, Dict.empty)) t with ⟨e | state, u⟩ <;> rfl

namespace Value.Opens

variable (opens : v.Opens s xs i t)
include opens

theorem exec_dict_of_unpacks (unpacks : List.Forall₂ (Entry.Unpacks s) xs bs) :
    (exec (Run.dict v) s).1 = .ok (.dict (Dict.empty.update ⟨bs⟩)) := by
  obtain ⟨u, ran⟩ := Run.exec_takePairs_of_unpacks opens.reads (Items.unpacks_congr opens.same unpacks) 0 .empty
  rw [opens.enters.exec_dict, ran]
  rfl

theorem exec_dict_of_firstUnfit (first : Items.FirstUnfit s xs e) : (exec (Run.dict v) s).1 = .error e := by
  obtain ⟨before, x, after, rfl, fit, unfit⟩ := first
  obtain ⟨bs, unpacks⟩ := Items.exists_unpacks fit
  have unpacks' := Items.unpacks_congr (fun y hy => opens.same y (List.mem_append_left _ hy)) unpacks
  have unfit' := unfit.congr (opens.same x (List.mem_append_right _ List.mem_cons_self))
  obtain ⟨u, ran⟩ := Run.exec_takePairs_of_unfit opens.reads unpacks' 0 (by rwa [Nat.zero_add]) .empty
  rw [opens.enters.exec_dict, ran]
  rfl

theorem exec_dict_eq_error_iff : (exec (Run.dict v) s).1 = .error e ↔ Items.FirstUnfit s xs e := by
  constructor
  · intro failed
    rcases Items.unpacks_or_firstUnfit s xs with ⟨bs, unpacks⟩ | ⟨f, first⟩
    · cases failed.symm.trans (opens.exec_dict_of_unpacks unpacks)
    · cases failed.symm.trans (opens.exec_dict_of_firstUnfit first)
      exact first
  · exact opens.exec_dict_of_firstUnfit

end Value.Opens

theorem Items.exists_firstUnfit_iff :
    (∃ e, FirstUnfit s xs e) ↔ ∃ x ∈ xs, ∃ position e, x.Unfit s position e := by
  constructor
  · rintro ⟨e, before, x, after, rfl, -, unfit⟩
    exact ⟨x, List.mem_append_right _ List.mem_cons_self, before.length, e, unfit⟩
  · rintro ⟨x, hx, position, e, unfit⟩
    rcases unpacks_or_firstUnfit s xs with ⟨bs, unpacks⟩ | first
    · exact absurd unfit (not_unfit unpacks x hx position e)
    · exact first

/-- What the elements of a sequence unpack to is as sound as they are. -/
theorem Items.sound_unpacked {w : World} (hs : s.Sound w) (hx : Items.Sound w xs)
    (unpacks : List.Forall₂ (Entry.Unpacks s) xs bs) :
    (∀ b ∈ bs, b.asKey.Sound w) ∧ ∀ b ∈ bs, b.value.Sound w := by
  have sound : ∀ b ∈ bs, b.asKey.Sound w ∧ b.value.Sound w := by
    intro b hb
    obtain ⟨x, mem, unpacks⟩ := Entry.exists_of_forall₂ unpacks.flip hb
    have items := (hx x mem).items? hs unpacks.items
    exact ⟨⟨items b.key (by simp), unpacks.hash⟩, items b.value (by simp)⟩
  exact ⟨fun b hb => (sound b hb).1, fun b hb => (sound b hb).2⟩

end Outcome

/-- A tuple of the key and the value of an entry. -/
def Entry.IsPair (e : Entry Value) (x : Value) : Prop := ∃ storage, x = .tuple storage [e.key, e.value]

section Pairs

variable {w : World} {d : Dict Value}

theorem Run.exec_pairs (es : List (Entry Value)) (s : Store) :
    ∃ ps t, exec (pairs es) s = (.ok ps, t) ∧ List.Forall₂ Entry.IsPair es ps := by
  induction es generalizing s with
  | nil => exact ⟨[], s, rfl, .nil⟩
  | cons e es ih =>
    obtain ⟨ps, t, ran, pairs⟩ := ih s.addStorage.2
    refine ⟨.tuple s.storages [e.key, e.value] :: ps, t, ?_, .cons ⟨_, rfl⟩ pairs⟩
    have made : exec (newTuple [e.key, e.value]) s = (.ok (.tuple s.storages [e.key, e.value]), s.addStorage.2) := rfl
    rw [Run.pairs, exec_bind, made]
    dsimp only
    rw [exec_bind, ran]
    rfl

/-- The pairs of a dict make up the dict again. -/
theorem Dict.exec_dict_pairs (hd : (Value.dict d).Sound w) {ps : List Value}
    (pairs : List.Forall₂ Entry.IsPair d.entries ps) (s : Store) :
    (exec (Run.dict (.list ps)) s).1 = .ok (.dict d) := by
  have tuples : ∀ j, .iter j ∉ ps := by
    intro j hj
    obtain ⟨e, -, storage, same⟩ := Entry.exists_of_forall₂ pairs.flip hj
    cases same
  have apart : Items.IteratorsApart ps := List.pairwise_of_forall_mem_list fun x hx y _ j same =>
    absurd (same ▸ hx) (tuples j)
  obtain ⟨i, t, opens⟩ := Value.exists_opens_container (s := s) (Value.items?_list s ps) (by simp [Value.kind])
    (fun j hj => absurd hj (tuples j)) apart
  have unpacks : List.Forall₂ (Entry.Unpacks s) ps d.entries := by
    apply Value.forall₂_imp_of_mem _ pairs.flip
    rintro x - e he ⟨storage, rfl⟩
    exact ⟨rfl, hd.fits.hashed e he⟩
  rw [opens.exec_dict_of_unpacks unpacks, Dict.empty_update hd]

/-- Bindings are taken out of a dict, one after the other, until that fails. -/
inductive Dict.Pops : Dict Value → Store → List Value → Dict Value → Error → Prop
  | fails {d : Dict Value} {s t : Store} {e : Error}
      (failed : exec (DictCommand.popItem.run d []) s = (.error (.error e), t)) : Pops d s [] d e
  | takes {d left last : Dict Value} {s t : Store} {pair : Value} {pairs : List Value} {e : Error}
      (taken : exec (DictCommand.popItem.run d []) s = (.ok (.value pair, left), t))
      (later : Pops left t pairs last e) : Pops d s (pair :: pairs) last e

theorem Dict.exists_pops (d : Dict Value) (s : Store) : ∃ ps last e, d.Pops s ps last e := by
  obtain ⟨es⟩ := d
  induction es generalizing s with
  | nil => exact ⟨[], ⟨[]⟩, .emptyDict, .fails rfl⟩
  | cons e es ih =>
    obtain ⟨ps, last, failure, pops⟩ := ih s.addStorage.2
    exact ⟨_ :: ps, last, failure, .takes rfl pops⟩

theorem Dict.Pops.all {s : Store} {ps : List Value} {last : Dict Value} {e : Error} (h : d.Pops s ps last e) :
    List.Forall₂ Entry.IsPair d.entries ps ∧ last = .empty ∧ e = .emptyDict := by
  induction h with
  | @fails d s t e failed =>
    obtain ⟨_ | ⟨first, es⟩⟩ := d
    · cases failed
      exact ⟨.nil, rfl, rfl⟩
    · cases failed
  | @takes d left last s t pair pairs e taken later ih =>
    obtain ⟨_ | ⟨first, es⟩⟩ := d
    · cases taken
    · cases taken
      exact ⟨.cons ⟨_, rfl⟩ ih.1, ih.2⟩

end Pairs

/-- Making a dict of a sequence of pairs, in every session and for elements that do not share an iterator. It fails if
and only if some element has no items, has not two of them, or has a first item without a hash, and the error is that
of the first such element, with its position. Otherwise each class of equal keys has one entry, with the first key in
its place and the last value. Hence a dict is made of its own pairs again, and taking its bindings out until that
fails gives these pairs in order and leaves nothing. -/
theorem dict_from_pairs {s : Session} (reachable : s.Reachable) :
    (∀ literals v rest t xs, s.Evaluates literals (v :: rest) t → v.items? t.store = some xs →
      Items.IteratorsApart xs →
      ((∃ e, (exec (Run.dict v) t.store).1 = .error e) ↔ ∃ x ∈ xs, ∃ position e, x.Unfit t.store position e) ∧
      (∀ e, (exec (Run.dict v) t.store).1 = .error e ↔ Items.FirstUnfit t.store xs e) ∧
      (∀ (x : Value) (position : Nat) (e : Error), x.Unfit t.store position e →
        e.category = if (x.items? t.store).any (·.length != 2) then .valueError else .typeError) ∧
      ((∀ x ∈ xs, ∀ position e, ¬x.Unfit t.store position e) → ∃ bs d,
        List.Forall₂ (Entry.Unpacks t.store) xs bs ∧ (exec (Run.dict v) t.store).1 = .ok (.dict d) ∧
        Entry.Condenses bs d.entries)) ∧
    ∀ d, s.Holds (.dict d) → ∀ store,
      (∃ ps t, exec (DictCommand.items.run d []) store = (.ok (.list ps, d), t) ∧
        List.Forall₂ Entry.IsPair d.entries ps ∧ (exec (Run.dict (.list ps)) t).1 = .ok (.dict d)) ∧
      (∃ ps last e, d.Pops store ps last e) ∧
      ∀ ps last e, d.Pops store ps last e →
        List.Forall₂ Entry.IsPair d.entries ps ∧ last = .empty ∧ e = .emptyDict := by
  obtain ⟨w, hs⟩ := reachable.exists_sound
  constructor
  · intro literals v rest t xs evaluates given apart
    obtain ⟨later, leads, sound⟩ := evaluates.leads hs
    have store := leads.store.sound
    have hv : v.Sound later := sound v List.mem_cons_self
    obtain ⟨i, u, opens⟩ := Value.exists_opens store hv given apart
    refine ⟨?_, fun _ => opens.exec_dict_eq_error_iff, fun _ _ _ unfit => unfit.category_eq, ?_⟩
    · rw [← Items.exists_firstUnfit_iff]
      exact exists_congr fun _ => opens.exec_dict_eq_error_iff
    · intro fit
      obtain ⟨bs, unpacks⟩ := Items.exists_unpacks fit
      obtain ⟨keys, values⟩ := Items.sound_unpacked store (hv.items? store given) unpacks
      exact ⟨bs, _, unpacks, opens.exec_dict_of_unpacks unpacks, (Entry.Condenses.run keys values).2⟩
  · intro d holds store
    obtain ⟨ps, t, ran, pairs⟩ := Run.exec_pairs d.entries store
    refine ⟨⟨ps, t, ?_, pairs, Dict.exec_dict_pairs (hs.of_holds holds) pairs t⟩, d.exists_pops store, ?_⟩
    · have run : DictCommand.items.run d [] = do return (.list (← Run.pairs d.entries), d) :=
        Act.result_run_bind d (Run.pairs d.entries) _
      rw [run, exec_bind, Eval.exec_lift, ran]
      rfl
    · intro ps last e pops
      exact pops.all

namespace Assembly

/-- A dict of two bindings. -/
def program : List Call := [⟨.query .identity [.dict [(.int 1, .none), (.int 2, .bool true)]], some "table"⟩]

def session : Session := (Session.empty.run [] program).2

def table : Dict Value := ⟨[⟨1, .int 1, .none⟩, ⟨2, .int 2, .bool true⟩]⟩

theorem reachable_session : session.Reachable := ⟨[], program, rfl⟩

theorem holds_table : session.Holds (.dict table) := .of_var "table" List.mem_cons_self

/-- A tuple, a list, a dict of two keys and an iterator are four pairs, of which the first two have equal keys. -/
def pairs : List Value :=
  [.tuple 0 [.int 1, .none], .list [.bool true, .int 5], .dict ⟨[⟨2, .int 2, .none⟩, ⟨1, .int 1, .none⟩]⟩, .iter 0]

/-- The bindings that the pairs stand for. -/
def bindings : List (Entry Value) :=
  [⟨1, .int 1, .none⟩, ⟨1, .bool true, .int 5⟩, ⟨2, .int 2, .int 1⟩, ⟨3, .int 3, .int 4⟩]

/-- The session with the tuple and the iterator made. -/
def withPairs : Session := ⟨⟨#[.start [.int 3, .int 4]], 1⟩, session.vars⟩

theorem evaluates_pairs :
    session.Evaluates [.list [.tuple [.int 1, .none], .list [.bool true, .int 5],
      .dict [(.int 2, .none), (.int 1, .none)], .iter [.int 3, .int 4]]] [.list pairs] withPairs := rfl

theorem apart_pairs : Items.IteratorsApart pairs := by
  simp [Items.IteratorsApart, pairs]

theorem unpacks_pairs : List.Forall₂ (Entry.Unpacks withPairs.store) pairs bindings :=
  .cons ⟨rfl, rfl⟩ (.cons ⟨rfl, rfl⟩ (.cons ⟨rfl, rfl⟩ (.cons ⟨rfl, rfl⟩ .nil)))

/-- Of these elements, the second has one item and the third has none. -/
def faulty : List Value := [.list [.int 1, .none], .list [.int 2], .none]

theorem evaluates_faulty :
    session.Evaluates [.list [.list [.int 1, .none], .list [.int 2], .none]] [.list faulty] session := rfl

theorem apart_faulty : Items.IteratorsApart faulty := by
  simp [Items.IteratorsApart, faulty]

theorem firstUnfit_faulty : Items.FirstUnfit session.store faulty (.pairLength 1 1) := by
  have first : List.Forall₂ (Entry.Unpacks session.store) [.list [.int 1, .none]] [⟨1, .int 1, .none⟩] :=
    .cons ⟨rfl, rfl⟩ .nil
  have second : Value.Unfit session.store 1 (.list [.int 2]) (.pairLength 1 1) :=
    .wrongLength (Value.items?_list _ [.int 2]) (by decide)
  exact ⟨[.list [.int 1, .none]], .list [.int 2], [.none], rfl, Items.not_unfit first, second⟩

end Assembly

/-- The error is about the second of the faulty elements, and not about the third. -/
theorem assembly_from_pairs :
    (exec (Run.dict (.list Assembly.faulty)) Assembly.session.store).1 = .error (.pairLength 1 1) ∧
    (∃ bs d, List.Forall₂ (Entry.Unpacks Assembly.withPairs.store) Assembly.pairs bs ∧
      (exec (Run.dict (.list Assembly.pairs)) Assembly.withPairs.store).1 = .ok (.dict d) ∧
      Entry.Condenses bs d.entries) ∧
    ∃ ps last e, Assembly.table.Pops Assembly.session.store ps last e ∧ last = .empty := by
  obtain ⟨make, back⟩ := dict_from_pairs Assembly.reachable_session
  obtain ⟨-, failure, -⟩ := make _ _ _ _ _ Assembly.evaluates_faulty rfl Assembly.apart_faulty
  obtain ⟨-, -, -, success⟩ := make _ _ _ _ _ Assembly.evaluates_pairs rfl Assembly.apart_pairs
  obtain ⟨-, ⟨ps, last, e, pops⟩, all⟩ := back _ Assembly.holds_table Assembly.session.store
  refine ⟨(failure _).2 Assembly.firstUnfit_faulty, success (Items.not_unfit Assembly.unpacks_pairs), ?_⟩
  exact ⟨ps, last, e, pops, (all ps last e pops).2.1⟩

end DynamicValues
