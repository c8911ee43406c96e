import DynamicValues.Proofs.Draws
import DynamicValues.Proofs.Pairs

/-!
Zips of values. Each operand has its cursor: an iterator its own, and any other value a new one. If no two operands are
the same iterator, all cursors are different, every lap takes one item from each, and the first of the shortest
operands ends the loop; the operands before it have then given an item more. If all operands are one iterator, the
laps cut its items into groups.
-/

set_option autoImplicit false

namespace DynamicValues

/-- The first of the shortest lists stands at `j`, and its length is `n`. -/
structure Items.Shortest (xss : List (List Value)) (j n : Nat) : Prop where
  here : xss[j]?.map List.length = some n
  least : ∀ xs ∈ xss, n ≤ xs.length
  first : ∀ k xs, k < j → xss[k]? = some xs → n < xs.length

theorem Items.Shortest.unique {xss : List (List Value)} {j k m n : Nat} (h : Shortest xss j m) (h' : Shortest xss k n) :
    j = k ∧ m = n := by
  obtain ⟨xs, atJ, rfl⟩ := Option.map_eq_some_iff.1 h.here
  obtain ⟨ys, atK, rfl⟩ := Option.map_eq_some_iff.1 h'.here
  have le := h.least ys (List.mem_of_getElem? atK)
  have ge := h'.least xs (List.mem_of_getElem? atJ)
  refine ⟨?_, Nat.le_antisymm le ge⟩
  rcases Nat.lt_trichotomy j k with earlier | same | later
  · exact absurd (h'.first j xs earlier atJ) (Nat.not_lt_of_le le)
  · exact same
  · exact absurd (h.first k ys later atK) (Nat.not_lt_of_le ge)

namespace Run.Account

variable {is before after : List Nat} {s t : Store} {rows : List Value} {i k : Nat}

section Different

variable (distinct : is.Nodup)
include distinct

/-- A lap takes one item from each cursor, and a part of it one from each cursor in that part. -/
theorem count_eq {p : Nat} (there : is[p]? = some k) (parts : is = before ++ after) :
    is.count k = 1 ∧ before.count k = if p < before.length then 1 else 0 := by
  refine ⟨List.count_eq_one_of_mem distinct (List.mem_of_getElem? there), ?_⟩
  rw [parts] at distinct there
  obtain ⟨front, -, apart⟩ := List.nodup_append.1 distinct
  split
  · next inside =>
    rw [List.getElem?_append_left inside] at there
    exact List.count_eq_one_of_mem front (List.mem_of_getElem? there)
  · next past =>
    rw [List.getElem?_append_right (Nat.le_of_not_lt past)] at there
    exact List.count_eq_zero.2 fun mem => apart k mem k (List.mem_of_getElem? there) rfl

theorem shortest (h : Account is s rows t before i) (parts : is = before ++ i :: after) :
    Items.Shortest (is.map fun k => (s.cursor k).rest) before.length rows.length := by
  have here : is[before.length]? = some i := by simp [parts]
  have enough (k : Nat) (mem : k ∈ is) : rows.length + before.count k ≤ (s.cursor k).remaining := by
    have available := h.available mem
    rwa [List.count_eq_one_of_mem distinct mem, Nat.mul_one] at available
  refine ⟨?_, ?_, ?_⟩
  · obtain ⟨once, fresh⟩ := count_eq distinct here parts
    have last := h.exhausted
    rw [once, fresh, if_neg (Nat.lt_irrefl _)] at last
    have least := enough i (List.mem_of_getElem? here)
    rw [List.getElem?_map, here, Option.map_some, Option.map_some, Cursor.length_rest]
    exact congrArg some (by omega)
  · rw [List.forall_mem_map]
    intro k mem
    rw [Cursor.length_rest]
    exact Nat.le_of_add_right_le (enough k mem)
  · intro p xs earlier there
    rw [parts, List.map_append, List.getElem?_append_left (by simpa using earlier)] at there
    obtain ⟨k, mem, rfl⟩ := List.mem_map.1 (List.mem_of_getElem? there)
    have more := enough k (parts ▸ List.mem_append_left _ mem)
    have drawn : 0 < before.count k := List.count_pos_iff.2 mem
    rw [Cursor.length_rest]
    omega

theorem map_some_row {m : Nat} {row : List Value} (h : (s.draw (laps is m)).Row is row) :
    row.map some = is.map fun k => (s.cursor k).rest[m]? := by
  apply List.ext_getElem (by rw [List.length_map, List.length_map, h.length_eq])
  intro p inside inside'
  rw [List.length_map] at inside inside'
  have split : is = is.take p ++ is[p] :: is.drop (p + 1) := by simp
  have size : (is.take p).length = p := List.length_take_of_le (Nat.le_of_lt inside')
  obtain ⟨once, fresh⟩ := count_eq distinct (List.getElem?_eq_getElem inside') split
  have item := h.item _ _ _ split
  rw [size, if_neg (Nat.lt_irrefl p)] at fresh
  rw [size, Store.drawn?_draw, Store.drawn?, List.count_append, count_laps, once, fresh,
    List.getElem?_eq_getElem inside, Nat.mul_one, Nat.add_zero] at item
  rw [List.getElem_map, List.getElem_map, item]

end Different

section Same

variable {n : Nat}

/-- If all draws are from one cursor, a lap takes the next group of its items. -/
theorem row_eq_of_replicate {m : Nat} {row : List Value}
    (h : (s.draw (laps (List.replicate n i) m)).Row (List.replicate n i) row) :
    row = ((s.cursor i).rest.drop (m * n)).take n := by
  apply List.ext_getElem?
  intro p
  rw [List.getElem?_take]
  split
  · next inside =>
    have split : List.replicate n i = List.replicate p i ++ i :: List.replicate (n - p - 1) i := by
      rw [← List.replicate_succ, List.replicate_append_replicate]
      congr 1
      omega
    have item := h.item _ _ _ split
    rwa [List.length_replicate, Store.drawn?_draw, Store.drawn?, List.count_append, count_laps,
      List.count_replicate_self, List.count_replicate_self, ← List.getElem?_drop] at item
  · next past =>
    rw [List.getElem?_eq_none]
    rw [h.length_eq, List.length_replicate]
    exact Nat.le_of_not_lt past

/-- Less than a lap is left for the row that is given up, and it takes all of it. -/
theorem of_replicate (h : Account (List.replicate n i) s rows t before k)
    (parts : List.replicate n i = before ++ k :: after) :
    rows.length = (s.cursor i).remaining / n ∧
      rows.length * (List.replicate n i).count i + before.count i = (s.cursor i).remaining := by
  obtain ⟨-, front, back⟩ := List.append_eq_replicate_iff.1 parts.symm
  obtain rfl : k = i := (List.eq_replicate_iff.1 back).2 k List.mem_cons_self
  have within : before.length < n := by
    have length := congrArg List.length parts
    simp only [List.length_replicate, List.length_append, List.length_cons] at length
    omega
  have drawn : before.count k = before.length := by rw [front, List.count_replicate_self, List.length_replicate]
  have exhausted := h.exhausted
  have available := h.available (parts ▸ List.mem_append_right _ List.mem_cons_self)
  rw [List.count_replicate_self, drawn] at exhausted available ⊢
  refine ⟨(Nat.div_eq_of_lt_le (by omega) ?_).symm, by omega⟩
  rw [Nat.succ_mul]
  omega

end Same
end Run.Account

/-- The cursor of an operand: an iterator has its own, and any other value with items a new one. -/
structure Value.Seated (s t : Store) (v : Value) (i : Nat) : Prop where
  items : v.items? s = some (t.cursor i).rest
  made : i < t.cursors.size
  source : v = .iter i ∨ v.kind ≠ .iter ∧ s.cursors.size ≤ i

section Operands

variable {s t u : Store} {v : Value} {vs xs : List Value} {i : Nat} {is : List Nat}

theorem Value.exists_seated (given : v.items? s = some xs) (old : ∀ j, v = .iter j → j < s.cursors.size) :
    ∃ i t, exec (Run.cursorOf v) s = (.ok i, t) ∧ t.storages = s.storages ∧ v.Seated s t i := by
  by_cases container : v.kind = .iter
  · cases v with
    | iter j => exact ⟨j, s, rfl, rfl, rfl, old j rfl, .inl rfl⟩
    | _ => cases container
  · refine ⟨_, _, Run.exec_cursorOf_container given container, rfl, ?_, ?_, .inr ⟨container, Nat.le_refl _⟩⟩
    · rw [given]
      exact congrArg (fun c => some c.rest) (s.cursor_addCursor xs).symm
    · rw [Store.size_addCursor]
      exact Nat.lt_succ_self _

namespace Value.Seated

/-- A cursor stays where it is while the operands after it get theirs. -/
theorem later (h : v.Seated s t i) (unmoved : t.Unmoved u) : v.Seated s u i where
  items := by rw [unmoved.old i h.made, h.items]
  made := Nat.lt_of_lt_of_le h.made unmoved.size_le
  source := h.source

theorem earlier (h : v.Seated t u i) (unmoved : s.Unmoved t) (old : ∀ j, v = .iter j → j < s.cursors.size) :
    v.Seated s u i where
  items := by rw [← h.items, items?_congr fun j same => unmoved.old j (old j same)]
  made := h.made
  source := h.source.imp_right fun container => ⟨container.1, unmoved.size_le.trans container.2⟩

/-- No operand after this one has its cursor, unless it is the same iterator. -/
theorem notMem_of_apart (h : v.Seated s t i) (others : List.Forall₂ (Value.Seated t u) vs is)
    (old : ∀ j, .iter j ∈ vs → j < s.cursors.size) (apart : ∀ w ∈ vs, ∀ j, v = .iter j → w ≠ .iter j) : i ∉ is := by
  intro mem
  obtain ⟨w, hw, there⟩ := Entry.exists_of_forall₂ others.flip mem
  rcases there.source with rfl | ⟨-, new⟩
  · rcases h.source with rfl | ⟨-, new⟩
    · exact apart _ hw i rfl rfl
    · exact Nat.not_lt_of_le new (old i hw)
  · exact Nat.not_lt_of_le new h.made

theorem eq_of_iter {j : Nat} (h : (iter j).Seated s t i) : i = j := by
  rcases h.source with own | ⟨container, -⟩
  · exact (Value.iter.inj own).symm
  · exact absurd rfl container

end Value.Seated

theorem Run.still_cursorsOf (vs : List Value) : Still (vs.mapM cursorOf) := by
  induction vs with
  | nil => simp
  | cons v vs ih => simp [ih]

/-- All operands get their cursors, which are different unless two operands are the same iterator. -/
theorem Run.exists_seated (walkable : ∀ v ∈ vs, ∃ xs, v.items? s = some xs)
    (old : ∀ j, .iter j ∈ vs → j < s.cursors.size) :
    ∃ is t, exec (vs.mapM cursorOf) s = (.ok is, t) ∧ t.storages = s.storages ∧
      List.Forall₂ (Value.Seated s t) vs is ∧ (Items.IteratorsApart vs → is.Nodup) := by
  induction vs generalizing s with
  | nil => exact ⟨[], s, rfl, rfl, .nil, fun _ => .nil⟩
  | cons v vs ih =>
    obtain ⟨⟨xs, given⟩, walkable⟩ := List.forall_mem_cons.1 walkable
    obtain ⟨i, t, found, storages, seated⟩ := Value.exists_seated given fun j same => old j (same ▸ List.mem_cons_self)
    have unmoved := still_cursorOf v s
    rw [found] at unmoved
    have old' (j : Nat) (mem : .iter j ∈ vs) : j < s.cursors.size := old j (List.mem_cons_of_mem v mem)
    have same (w : Value) (mem : w ∈ vs) : w.items? t = w.items? s :=
      Value.items?_congr fun j is => unmoved.old j (old' j (is ▸ mem))
    obtain ⟨is, u, ran, storages', others, distinct⟩ := ih (s := t)
      (fun w mem => by rw [same w mem]; exact walkable w mem)
      (fun j mem => Nat.lt_of_lt_of_le (old' j mem) unmoved.size_le)
    have unmoved' := still_cursorsOf vs t
    rw [ran] at unmoved'
    refine ⟨i :: is, u, ?_, storages'.trans storages, .cons (seated.later unmoved') ?_, ?_⟩
    · rw [List.mapM_cons, exec_bind, found]
      dsimp only
      rw [exec_bind, ran]
      rfl
    · refine Value.forall₂_imp_of_mem (fun w mem j _ seated => ?_) others
      exact seated.earlier unmoved fun k is => old' k (is ▸ mem)
    · intro apart
      obtain ⟨here, later⟩ := List.pairwise_cons.1 apart
      exact List.nodup_cons.2 ⟨seated.notMem_of_apart others old' here, distinct later⟩

theorem Value.Seated.getElem?_eq (seated : List.Forall₂ (Value.Seated s t) vs is) {p j : Nat}
    (there : vs[p]? = some (.iter j)) : is[p]? = some j := by
  induction seated generalizing p with
  | nil => cases there
  | cons here _ ih =>
    cases p with
    | zero =>
      cases there
      exact congrArg some here.eq_of_iter
    | succ p => exact ih there

theorem Value.Seated.items_eq {xss : List (List Value)} (seated : List.Forall₂ (Value.Seated s t) vs is)
    (given : List.Forall₂ (fun v xs => v.items? s = some xs) vs xss) :
    xss = is.map fun i => (t.cursor i).rest := by
  induction seated generalizing xss with
  | nil =>
    cases given
    rfl
  | cons here _ ih =>
    cases given with
    | cons head tail => rw [List.map_cons, ← ih tail, Option.some.inj (head.symm.trans here.items)]

theorem Value.Seated.eq_replicate (seated : List.Forall₂ (Value.Seated s t) vs is)
    (same : ∀ v ∈ vs, v = .iter i) : is = List.replicate vs.length i := by
  refine List.eq_replicate_iff.2 ⟨seated.length_eq.symm, ?_⟩
  intro j mem
  obtain ⟨v, hv, here⟩ := Entry.exists_of_forall₂ seated.flip mem
  rw [same v hv] at here
  exact here.eq_of_iter

/-- Cursors that no operand has. -/
theorem Value.Seated.notMem (seated : List.Forall₂ (Value.Seated s t) vs is) {j : Nat} (old : j < s.cursors.size)
    (other : .iter j ∉ vs) : j ∉ is := by
  intro mem
  obtain ⟨v, hv, here⟩ := Entry.exists_of_forall₂ seated.flip mem
  rcases here.source with rfl | ⟨-, new⟩
  · exact other hv
  · exact Nat.not_lt_of_le new old

/-- A zip of operands that have cursors is the loop over these cursors. -/
theorem Run.exec_zip {rows : List Value} (found : exec (vs.mapM cursorOf) s = (.ok (i :: is), t))
    (zips : Zips (i :: is) t rows u) : exec (zip vs) s = (.ok (.list rows), u) := by
  have loop : exec (do return Value.list (← zipLoop (i :: is) (← remaining i) [])) t =
      exec (do return Value.list (← zipLoop (i :: is) (t.cursor i).remaining [])) t := rfl
  rw [zip, exec_bind, found]
  dsimp only
  rw [loop, exec_bind, exec_zipLoop zips (Nat.le_refl _)]
  rfl

/-- The rows of a zip and the account of its loop. -/
theorem Run.exists_zip (present : vs ≠ []) (walkable : ∀ v ∈ vs, ∃ xs, v.items? s = some xs)
    (old : ∀ j, .iter j ∈ vs → j < s.cursors.size) :
    ∃ is t rows u, exec (vs.mapM cursorOf) s = (.ok is, t) ∧ t.storages = s.storages ∧ s.Unmoved t ∧
      List.Forall₂ (Value.Seated s t) vs is ∧ (Items.IteratorsApart vs → is.Nodup) ∧ Zips is t rows u ∧
      exec (zip vs) s = (.ok (.list rows), u) := by
  obtain ⟨is, t, found, storages, seated, distinct⟩ := exists_seated walkable old
  have unmoved := still_cursorsOf vs s
  rw [found] at unmoved
  cases is with
  | nil =>
    cases seated
    exact absurd rfl present
  | cons i is =>
    obtain ⟨rows, u, zips⟩ := exists_zips i is t
    exact ⟨i :: is, t, rows, u, found, storages, unmoved, seated, distinct, zips, exec_zip found zips⟩

theorem Run.exec_cursorsOf_of_not_walkable (mem : v ∈ vs) (absent : v.kind.walkable = false) (s : Store) :
    ∃ kind t, exec (vs.mapM cursorOf) s = (.error (.notIterable kind), t) := by
  induction vs generalizing s with
  | nil => cases mem
  | cons w vs ih =>
    rw [List.mapM_cons, exec_bind]
    cases walkable : w.kind.walkable with
    | false =>
      rw [exec_cursorOf_of_not_walkable walkable]
      exact ⟨w.kind, s, rfl⟩
    | true =>
      have later : v ∈ vs := (List.mem_cons.1 mem).resolve_left fun same => by
        rw [same, walkable] at absent
        cases absent
      obtain ⟨i, t, found, -⟩ := exec_cursorOf_of_walkable walkable s
      obtain ⟨kind, u, failed⟩ := ih later t
      rw [found]
      dsimp only
      rw [exec_bind, failed]
      exact ⟨kind, u, rfl⟩

theorem Run.exec_zip_of_not_walkable (mem : v ∈ vs) (absent : v.kind.walkable = false) (s : Store) :
    ∃ kind t, exec (zip vs) s = (.error (.notIterable kind), t) ∧ s.Unmoved t := by
  obtain ⟨kind, t, failed⟩ := exec_cursorsOf_of_not_walkable mem absent s
  have unmoved := still_cursorsOf vs s
  rw [failed] at unmoved
  refine ⟨kind, t, ?_, unmoved⟩
  rw [zip, exec_bind, failed]

end Operands

/-- Zips in every session. If no two operands are the same iterator, there are as many rows as the shortest operands
have items, each a new tuple of the items at one place; the iterators before the first of the shortest operands have
given an item more than there are rows, and those from it on just as many. If all operands are one iterator, the rows
cut its items into groups, and it is exhausted. An operand without items makes the call fail before any cursor moves.
Whatever iterators the operands share, the loop comes to a row that it gives up. -/
theorem zip_to_shortest {s t : Session} {literals : List Literal} {vs : List Value} (reachable : s.Reachable)
    (evaluates : s.Evaluates literals vs t) (present : vs ≠ []) :
    (∀ xss, List.Forall₂ (fun v xs => v.items? t.store = some xs) vs xss → Items.IteratorsApart vs →
      ∃ j n rows u, Items.Shortest xss j n ∧ exec (Run.zip vs) t.store = (.ok (.list rows), u) ∧
        rows.length = n ∧
        (∀ m, m < n → ∃ row, rows[m]? = some (.tuple (t.store.storages + m) row) ∧
          row.map some = xss.map (·[m]?)) ∧
        (∀ p i, vs[p]? = some (.iter i) → (u.cursor i).items = (t.store.cursor i).items ∧
          (u.cursor i).position = (t.store.cursor i).position + if p < j then n + 1 else n) ∧
        ∀ i, i < t.store.cursors.size → .iter i ∉ vs → u.cursor i = t.store.cursor i) ∧
    (∀ i, (∀ v ∈ vs, v = .iter i) → ∃ rows u, exec (Run.zip vs) t.store = (.ok (.list rows), u) ∧
      rows.length = (t.store.cursor i).remaining / vs.length ∧
      (∀ m, m < rows.length → rows[m]? = some (.tuple (t.store.storages + m)
        (((t.store.cursor i).rest.drop (m * vs.length)).take vs.length))) ∧
      (u.cursor i).items = (t.store.cursor i).items ∧ (u.cursor i).remaining = 0 ∧
      ∀ k, k < t.store.cursors.size → k ≠ i → u.cursor k = t.store.cursor k) ∧
    (∀ v ∈ vs, v.items? t.store = none →
      ∃ kind u, exec (Run.zip vs) t.store = (.error (.notIterable kind), u) ∧ t.store.Unmoved u) ∧
    ((∀ v ∈ vs, ∃ xs, v.items? t.store = some xs) →
      ∃ is opened rows u, exec (vs.mapM Run.cursorOf) t.store = (.ok is, opened) ∧ t.store.Unmoved opened ∧
        Run.Zips is opened rows u ∧ exec (Run.zip vs) t.store = (.ok (.list rows), u)) := by
  obtain ⟨w, hs⟩ := reachable.exists_sound
  obtain ⟨later, leads, sound⟩ := evaluates.leads hs
  have old (i : Nat) (mem : .iter i ∈ vs) : i < t.store.cursors.size :=
    leads.store.sound.size_eq ▸ (sound _ mem).fits
  refine ⟨?_, ?_, ?_, ?_⟩
  · intro xss given apart
    have walkable (v : Value) (mem : v ∈ vs) : ∃ xs, v.items? t.store = some xs := by
      obtain ⟨xs, -, items⟩ := Entry.exists_of_forall₂ given mem
      exact ⟨xs, items⟩
    obtain ⟨is, opened, rows, u, -, storages, unmoved, seated, distinct, zips, ran⟩ :=
      Run.exists_zip present walkable old
    obtain ⟨before, i, after, parts, account⟩ := zips.exists_account
    have distinct := distinct apart
    obtain rfl := Value.Seated.items_eq seated given
    refine ⟨before.length, rows.length, rows, u, Run.Account.shortest distinct account parts, ran, rfl, ?_, ?_, ?_⟩
    · intro m inside
      obtain ⟨row, there, items⟩ := account.lap m inside
      refine ⟨row, storages ▸ there, ?_⟩
      rw [Run.Account.map_some_row distinct items, List.map_map]
      rfl
    · intro p k there
      have made := old k (List.mem_of_getElem? there)
      have cursor := account.cursor_eq (Nat.lt_of_lt_of_le made unmoved.size_le)
      obtain ⟨once, drawn⟩ := Run.Account.count_eq distinct (Value.Seated.getElem?_eq seated there) parts
      rw [unmoved.old k made, once, drawn] at cursor
      rw [cursor]
      refine ⟨rfl, ?_⟩
      dsimp only
      split <;> omega
    · intro k made other
      have absent := Value.Seated.notMem seated made other
      rw [account.cursor_eq_of_notMem parts (Nat.lt_of_lt_of_le made unmoved.size_le) absent, unmoved.old k made]
  · intro i same
    have walkable (v : Value) (mem : v ∈ vs) : ∃ xs, v.items? t.store = some xs :=
      ⟨(t.store.cursor i).rest, by rw [same v mem]; rfl⟩
    obtain ⟨is, opened, rows, u, -, storages, unmoved, seated, -, zips, ran⟩ :=
      Run.exists_zip present walkable old
    obtain ⟨before, j, after, parts, account⟩ := zips.exists_account
    obtain rfl := Value.Seated.eq_replicate seated same
    obtain ⟨v, mem⟩ := List.exists_mem_of_ne_nil vs present
    have made : i < t.store.cursors.size := old i (same v mem ▸ mem)
    obtain ⟨count, drawn⟩ := account.of_replicate parts
    have cursor := account.cursor_eq (Nat.lt_of_lt_of_le made unmoved.size_le)
    rw [drawn, unmoved.old i made] at cursor
    rw [unmoved.old i made] at count
    refine ⟨rows, u, ran, count, ?_, by rw [cursor], ?_, ?_⟩
    · intro m inside
      obtain ⟨row, there, items⟩ := account.lap m inside
      rw [there, Run.Account.row_eq_of_replicate items, unmoved.old i made, storages]
    · rw [cursor, Cursor.remaining, Cursor.remaining, Cursor.total, Cursor.total]
      dsimp only
      omega
    · intro k made other
      have absent : k ∉ List.replicate vs.length i := fun mem => other (List.eq_of_mem_replicate mem)
      rw [account.cursor_eq_of_notMem parts (Nat.lt_of_lt_of_le made unmoved.size_le) absent, unmoved.old k made]
  · intro v mem absent
    exact Run.exec_zip_of_not_walkable mem (Value.walkable_of_items?_eq_none absent) t.store
  · intro walkable
    obtain ⟨is, opened, rows, u, found, -, unmoved, -, -, zips, ran⟩ := Run.exists_zip present walkable old
    exact ⟨is, opened, rows, u, found, unmoved, zips, ran⟩

namespace Columns

/-- An iterator of three items. -/
def program : List Call := [⟨.query .identity [.iter [.int 1, .int 2, .int 3]], some "walk"⟩]

def session : Session := (Session.empty.run [] program).2

theorem reachable_session : session.Reachable := ⟨[], program, rfl⟩

def operands : List Value := [.iter 1, .list [.int 5, .int 6], .iter 2]

/-- The session with two more iterators made. -/
def opened : Session :=
  ⟨⟨#[.start [.int 1, .int 2, .int 3], .start [.int 1, .int 2, .int 3, .int 4], .start [.int 7, .int 8]], 0⟩,
    session.vars⟩

theorem evaluates_operands :
    session.Evaluates [.iter [.int 1, .int 2, .int 3, .int 4], .list [.int 5, .int 6], .iter [.int 7, .int 8]]
      operands opened := rfl

theorem evaluates_twice : session.Evaluates [.var "walk", .var "walk"] [.iter 0, .iter 0] session := rfl

theorem evaluates_none : session.Evaluates [.var "walk", .none] [.iter 0, .none] session := rfl

def items : List (List Value) := [[.int 1, .int 2, .int 3, .int 4], [.int 5, .int 6], [.int 7, .int 8]]

theorem items_operands : List.Forall₂ (fun v xs => v.items? opened.store = some xs) operands items :=
  .cons rfl (.cons rfl (.cons rfl .nil))

theorem apart_operands : Items.IteratorsApart operands := by simp [Items.IteratorsApart, operands]

/-- Two operands have two items, and the first of them is the second. -/
theorem shortest_items : Items.Shortest items 1 2 where
  here := rfl
  least := by simp [items]
  first := by
    intro k xs earlier there
    obtain rfl : k = 0 := by omega
    cases there
    decide

end Columns

/-- The first iterator has given three items and the last one two. An iterator of three items, zipped with itself, is
one pair, and the third item is lost; zipped with no value at all, it does not move. -/
theorem columns_zipped :
    (∃ rows u, exec (Run.zip Columns.operands) Columns.opened.store = (.ok (.list rows), u) ∧ rows.length = 2 ∧
      (u.cursor 1).position = 3 ∧ (u.cursor 2).position = 2) ∧
    (∃ rows u, exec (Run.zip [.iter 0, .iter 0]) Columns.session.store = (.ok (.list rows), u) ∧ rows.length = 1 ∧
      rows[0]? = some (.tuple 0 [.int 1, .int 2]) ∧ (u.cursor 0).remaining = 0) ∧
    ∃ kind u, exec (Run.zip [.iter 0, .none]) Columns.session.store = (.error (.notIterable kind), u) ∧
      Columns.session.store.Unmoved u := by
  refine ⟨?_, ?_, ?_⟩
  · obtain ⟨apart, -⟩ := zip_to_shortest Columns.reachable_session Columns.evaluates_operands nofun
    obtain ⟨j, n, rows, u, shortest, ran, length, -, moved, -⟩ :=
      apart Columns.items Columns.items_operands Columns.apart_operands
    obtain ⟨rfl, rfl⟩ := shortest.unique Columns.shortest_items
    exact ⟨rows, u, ran, length, (moved 0 1 rfl).2, (moved 2 2 rfl).2⟩
  · obtain ⟨-, shared, -⟩ := zip_to_shortest Columns.reachable_session Columns.evaluates_twice nofun
    obtain ⟨rows, u, ran, length, groups, -, exhausted, -⟩ := shared 0 (by simp)
    exact ⟨rows, u, ran, length, groups 0 (length ▸ Nat.zero_lt_one), exhausted⟩
  · obtain ⟨-, -, refused, -⟩ := zip_to_shortest Columns.reachable_session Columns.evaluates_none nofun
    exact refused .none (by simp) rfl

end DynamicValues
