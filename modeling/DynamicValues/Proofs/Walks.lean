import DynamicValues.Callback
import DynamicValues.Host.Exchange
import DynamicValues.Proofs.Act
import DynamicValues.Proofs.Items
import DynamicValues.Zip

/-!
Subscripts, collections, aggregates, rows and callbacks keep the store sound and give sound values,
whatever is walked on the way and however it ends. So does host data, which refers to no store.
-/

set_option autoImplicit false

namespace DynamicValues

theorem Edit.gives_result {ρ α : Type} {m : Edit ρ α} {r : ρ} {p : ρ → Prop} (h : Gives (m.on r) p) :
    Gives (m.result r) fun q => p q.2 := by
  intro q hq
  exact h q.2 (by rw [on, hq]; rfl)

theorem Act.keeps_result {ε ρ α : Type} {w : World} {m : Act ε ρ α} {r : ρ} {post : World → ρ → Prop}
    (h : Keeps w (m.on r) post) : Keeps w (m.result r) fun later q => post later q.2 := by
  intro s hs
  obtain ⟨later, evolves, result⟩ := h s hs
  rw [on, exec_bind] at evolves result
  refine ⟨later, ?_⟩
  generalize exec (m.result r) s = executed at evolves result ⊢
  obtain ⟨e | q, t⟩ := executed
  · exact ⟨evolves, .error e⟩
  · exact ⟨evolves, .ok (result q.2 rfl)⟩

namespace Value

variable {w : World}

theorem keeps_getItem {v key : Value} (h : v.Sound w) : Keeps w (v.getItem key) Sound := by
  have items (kind : Kind) (xs : List Value) (hxs : Items.Sound w xs) :
      Keeps w (do Sequence.get kind xs (← Sequence.indexWord kind key) : Run Value) Sound := by
    refine .check (.anything _) fun i _ => .liftExcept ?_
    intro x hx
    exact hxs x (Sequence.gives_get kind xs i x hx)
  cases v with
  | str t => exact .check (.anything _) fun u _ => .pure (sound_str w u)
  | tuple i xs =>
    have hxs : Items.Sound w xs := fun _ hx => h.part hx
    cases key with
    | slice s =>
      exact .check (Sequence.gives_slice xs s) fun ys sub => Run.keeps_newTuple (hxs.subset sub)
    | _ => exact items .tuple xs hxs
  | list xs =>
    have hxs : Items.Sound w xs := fun _ hx => h.part hx
    cases key with
    | slice s =>
      exact .check (Sequence.gives_slice xs s) fun ys sub => .pure (sound_list (hxs.subset sub))
    | _ => exact items .list xs hxs
  | dict d => exact .liftExcept (Dict.gives_get h)
  | _ => exact .throw _

/-- The items of a list, with those of a value for the items that a slice selects. -/
def assignSlice (xs : List Value) (s : Slice) (values : Value) : Run (List Value) :=
  (ListEdit.setSlice s values).on xs

theorem assignSlice_eq (xs : List Value) (s : Slice) (values : Value) : assignSlice xs s values = (do
    let i ← Run.cursorOf values
    let r ← s.resolve xs.length
    let items ← Run.drain i
    Items.assign xs r items) := by
  rw [assignSlice, ListEdit.setSlice, Act.on_aside_bind]
  congr 1
  funext i
  rw [Act.on_receiver_bind, Act.on_check_bind]
  congr 1
  funext r
  rw [Act.on_aside_bind]
  congr 1
  funext items
  exact Act.on_edit xs _

theorem keeps_assignSlice {xs : List Value} {s : Slice} {values : Value} (h : Items.Sound w xs)
    (hv : values.Sound w) : Keeps w (assignSlice xs s values) Items.Sound := by
  rw [assignSlice_eq]
  refine (Run.keeps_cursorOf hv).bind fun _ i grows _ => ?_
  refine .check (.anything _) fun r _ => ?_
  refine (Run.keeps_drain i).bind fun _ items grows' hitems => ?_
  exact .liftExcept (Items.gives_assign (persists_items (grows.trans grows') h) hitems r)

end Value

namespace ListEdit

variable {w : World} {xs : List Value} {key new : Value}

theorem on_setItem (h : ∀ s, key ≠ .slice s) (xs : List Value) :
    (setItem key new).on xs = (do Items.set xs (← Sequence.indexWord .list key) new : Run (List Value)) := by
  have byIndex : setItem key new = (do set (← Sequence.indexWord .list key) new) := by
    cases key with
    | slice s => exact absurd rfl (h s)
    | _ => rfl
  rw [byIndex, Act.on_check_bind]
  congr 1
  funext i
  exact Act.on_edit xs _

theorem on_deleteItem (h : ∀ s, key ≠ .slice s) (xs : List Value) :
    (deleteItem key).on xs = (do Items.delete xs (← Sequence.indexWord .list key)) := by
  have byIndex : deleteItem key = (do delete (← Sequence.indexWord .list key)) := by
    cases key with
    | slice s => exact absurd rfl (h s)
    | _ => rfl
  rw [byIndex, Edit.on_check_bind]
  rfl

theorem keeps_setItem (h : Items.Sound w xs) (hn : new.Sound w) :
    Keeps w ((setItem key new).on xs) Items.Sound := by
  by_cases sliced : ∃ s, key = .slice s
  · obtain ⟨s, rfl⟩ := sliced
    exact Value.keeps_assignSlice h hn
  · rw [on_setItem fun s same => sliced ⟨s, same⟩]
    exact .check (.anything _) fun i _ => .liftExcept (Items.gives_set h hn i)

theorem gives_deleteItem (h : Items.Sound w xs) : Gives ((deleteItem key).on xs) (Items.Sound w) := by
  by_cases sliced : ∃ s, key = .slice s
  · obtain ⟨s, rfl⟩ := sliced
    exact Items.gives_deleteSlice h s
  · rw [on_deleteItem fun s same => sliced ⟨s, same⟩]
    exact .bind (.anything _) fun i _ => Items.gives_delete h i

end ListEdit

namespace ItemEdit

variable {w : World} {v key new : Value}

theorem on_set_list (xs : List Value) :
    (set key new).on (.list xs) = do return Value.list (← (ListEdit.setItem key new).on xs) :=
  Act.on_within (Value.list xs) xs Value.list _

theorem on_set_dict (d : Dict Value) :
    (set key new).on (.dict d) = (do return Value.dict (← d.set key new) : Run Value) :=
  Act.on_within_edit (Value.dict d) d Value.dict (DictEdit.set key new)

theorem on_delete_list (xs : List Value) :
    (delete key).on (.list xs) = (do return Value.list (← (ListEdit.deleteItem key).on xs) : Run Value) :=
  Act.on_within_edit (Value.list xs) xs Value.list (ListEdit.deleteItem key)

theorem on_delete_dict (d : Dict Value) :
    (delete key).on (.dict d) = (do return Value.dict (← d.delete key) : Run Value) :=
  Act.on_within_edit (Value.dict d) d Value.dict (DictEdit.delete key)

theorem keeps_set (h : v.Sound w) (hk : key.Sound w) (hn : new.Sound w) :
    Keeps w ((set key new).on v) Value.Sound := by
  cases v with
  | list xs =>
    rw [on_set_list]
    exact (ListEdit.keeps_setItem (fun _ hx => h.part hx) hn).map fun _ _ _ => Value.sound_list
  | dict d =>
    rw [on_set_dict]
    exact .check (Dict.gives_set h hk hn) fun _ he => .pure he
  | _ =>
    rw [set, Act.on_receiver_bind]
    exact .throw _

theorem keeps_delete (h : v.Sound w) : Keeps w ((delete key).on v) Value.Sound := by
  cases v with
  | list xs =>
    rw [on_delete_list]
    exact .check (ListEdit.gives_deleteItem fun _ hx => h.part hx) fun _ hys => .pure (Value.sound_list hys)
  | dict d =>
    rw [on_delete_dict]
    exact .check (Dict.gives_delete h) fun _ he => .pure he
  | _ =>
    rw [delete, Act.on_receiver_bind]
    exact .throw _

end ItemEdit

namespace Value

variable {w : World}

theorem keeps_contains (v item : Value) : Keeps w (v.contains item) fun _ _ => True := by
  cases v with
  | str t =>
    cases item with
    | str sub => exact .pure trivial
    | _ => exact .throw _
  | tuple i xs => exact .pure trivial
  | list xs => exact .pure trivial
  | dict d => exact .liftExcept (.anything _)
  | iter i => exact Run.keeps_seek i _
  | _ => exact .throw _

/-- A sum is a number, so nothing is inside. -/
theorem gives_add (a b : Value) : Gives (a.add b) (Sound w) := by
  unfold add
  split
  · split <;> exact .ok (.of_scalar trivial rfl)
  · exact .ok (.of_scalar trivial rfl)
  · exact .error _

end Value

namespace Run

variable {w : World}

theorem keeps_iter {v : Value} (h : v.Sound w) : Keeps w (iter v) Value.Sound :=
  (keeps_cursorOf h).map fun _ _ _ hi => hi

theorem keeps_list {v : Value} (h : v.Sound w) : Keeps w (list v) Value.Sound :=
  (keeps_itemsOf h).map fun _ _ _ => Value.sound_list

theorem keeps_tuple {v : Value} (h : v.Sound w) : Keeps w (tuple v) Value.Sound :=
  (keeps_itemsOf h).bind fun _ _ _ => keeps_newTuple

theorem keeps_sorted {v : Value} (h : v.Sound w) : Keeps w (sorted v) Value.Sound :=
  (keeps_itemsOf h).map fun _ _ _ hxs => Value.sound_list (Items.sound_sort hxs)

theorem keeps_setPair (position : Nat) {d : Dict Value} {pair : Value} (hd : (Value.dict d).Sound w)
    (hp : pair.Sound w) : Keeps w (setPair position d pair) fun later e => (Value.dict e).Sound later := by
  refine .bind (.tryCatch (keeps_cursorOf hp) fun _ _ => .throw _) fun now i grows _ => ?_
  refine (keeps_drain i).bind fun later items grows' hitems => ?_
  split
  · next key v =>
    have hk : key.Sound later := hitems key (by simp)
    have hv : v.Sound later := hitems v (by simp)
    exact .liftExcept (Dict.gives_set (hd.mono (grows.trans grows')) hk hv)
  · exact .throw _

theorem keeps_dictOf (i : Nat) : Keeps w (dictOf i) fun later d => (Value.dict d).Sound later := by
  refine .map (keeps_foldCursor (fun now state => (Value.dict state.2).Sound now) ?_ i ?_
    (Dict.sound_empty w)) fun _ _ _ h => h
  · exact fun _ _ _ grows h => h.mono grows
  · intro now state pair _ hd hp
    exact (keeps_setPair state.1 hd hp).map fun _ _ _ he => he

theorem keeps_dict {v : Value} (h : v.Sound w) : Keeps w (dict v) Value.Sound := by
  refine (keeps_cursorOf h).bind fun _ i _ _ => ?_
  exact (keeps_dictOf i).map fun _ _ _ hd => hd

theorem keeps_pairs {es : List (Entry Value)} (h : ∀ e ∈ es, e.key.Sound w ∧ e.value.Sound w) :
    Keeps w (pairs es) Items.Sound := by
  induction es generalizing w with
  | nil => exact .pure .nil
  | cons e es ih =>
    obtain ⟨⟨hk, hv⟩, rest⟩ := List.forall_mem_cons.1 h
    refine (keeps_newTuple (.cons hk (.cons hv .nil))).bind fun now pair grows hp => ?_
    refine (ih fun e he => ?_).map fun _ _ grows' hps => .cons (hp.mono grows') hps
    exact ⟨(rest e he).1.mono grows, (rest e he).2.mono grows⟩

theorem keeps_wrap (config : Config) {items : List Value} (h : Items.Sound w items) :
    Keeps w (wrap config items) Value.Sound := by
  unfold wrap
  split
  · exact keeps_newIter h
  · exact .pure (Value.sound_list h)

theorem gives_progression (r : Range) : Gives (progression r) (Items.Sound w) := by
  unfold progression
  split
  · exact .error _
  · refine .ok ?_
    rw [Items.Sound, List.forall_mem_map]
    intro n _
    exact Value.sound_int w n

theorem keeps_range (config : Config) (r : Range) : Keeps w (range config r) Value.Sound :=
  .check (gives_progression r) fun _ => keeps_wrap config

theorem keeps_lazyRange (r : Range) : Keeps w (lazyRange r) Value.Sound :=
  .check (gives_progression r) fun _ => keeps_newIter

theorem keeps_map (config : Config) {f : Value → Run Value} {v : Value}
    (hf : ∀ (now : World) (x : Value), w.Extends now → x.Sound now → Keeps now (f x) Value.Sound)
    (h : v.Sound w) : Keeps w (map config f v) Value.Sound := by
  refine (keeps_cursorOf h).bind fun now i grows _ => ?_
  have mapped : Keeps now (mapCursor i f) Items.Sound :=
    keeps_mapCursor persists_sound i fun later x grows' => hf later x (grows.trans grows')
  exact mapped.bind fun _ _ _ => keeps_wrap config

theorem keeps_extremum (e : Extremum) {v : Value} (h : v.Sound w) : Keeps w (extremum e v) Value.Sound := by
  refine (keeps_cursorOf h).bind fun now i _ _ => ?_
  refine .bind (keeps_foldCursor (fun now best => ∀ x ∈ best, x.Sound now) ?_ i ?_ (by simp))
    fun later best _ hbest => ?_
  · exact fun _ _ _ grows h x hx => (h x hx).mono grows
  · intro now best x _ hbest hx
    refine .pure ?_
    rintro _ ⟨⟩
    cases best with
    | none => exact hx
    | some b =>
      change (e.choose b x).Sound now
      unfold Extremum.choose
      split
      · exact hx
      · exact hbest b rfl
  · cases best with
    | none => exact .throw _
    | some b => exact .pure (hbest b rfl)

theorem keeps_sum {v start : Value} (h : v.Sound w) (hs : start.Sound w) :
    Keeps w (sum v start) Value.Sound := by
  refine (keeps_cursorOf h).bind fun now i grows _ => ?_
  refine keeps_foldCursor _ persists_sound i ?_ (hs.mono grows)
  intro now total x _ _ _
  exact .liftExcept (Value.gives_add total x)

theorem keeps_join (sep : Text) {v : Value} (h : v.Sound w) : Keeps w (join sep v) fun _ _ => True := by
  refine (keeps_cursorOf h).bind fun now i _ _ => ?_
  refine .map (keeps_foldCursor (fun _ _ => True) (fun _ _ _ _ h => h) i ?_ trivial)
    fun _ _ _ _ => trivial
  intro now texts x _ _ _
  cases x with
  | str t => exact .pure trivial
  | _ => exact .throw _

theorem keeps_cursorsOf {vs : List Value} (h : Items.Sound w vs) :
    Keeps w (vs.mapM cursorOf) fun _ _ => True := by
  induction vs generalizing w with
  | nil => exact .pure trivial
  | cons v vs ih =>
    obtain ⟨hv, rest⟩ := List.forall_mem_cons.1 h
    rw [List.mapM_cons]
    refine (keeps_cursorOf hv).bind fun _ _ grows _ => ?_
    exact (ih (persists_items grows rest)).map fun _ _ _ _ => trivial

theorem keeps_pullRow (is : List Nat) :
    Keeps w (pullRow is) fun later r => ∀ row, r = some row → Items.Sound later row := by
  induction is generalizing w with
  | nil =>
    refine .pure ?_
    rintro _ ⟨⟩
    exact .nil
  | cons i is ih =>
    refine (keeps_next i).bind fun now item _ hitem => ?_
    cases item with
    | none => exact .pure (by simp)
    | some x =>
      refine ih.map fun later r grows hr => ?_
      intro row hrow
      obtain ⟨tail, htail, rfl⟩ := Option.map_eq_some_iff.1 hrow
      exact .cons ((hitem x rfl).mono grows) (hr tail htail)

theorem keeps_zipLoop (is : List Nat) (rounds : Nat) {rows : List Value} (h : Items.Sound w rows) :
    Keeps w (zipLoop is rounds rows) Items.Sound := by
  have done (now : World) (rows : List Value) (h : Items.Sound now rows) : Items.Sound now rows.reverse :=
    h.subset (by simp)
  induction rounds generalizing w rows with
  | zero => exact .pure (done w rows h)
  | succ rounds ih =>
    refine (keeps_pullRow is).bind fun now r grows hr => ?_
    cases r with
    | none => exact .pure (done now rows (persists_items grows h))
    | some row =>
      refine (keeps_newTuple (hr row rfl)).bind fun _ v grows' hv => ?_
      exact ih (.cons hv (persists_items (grows.trans grows') h))

theorem keeps_zip {vs : List Value} (h : Items.Sound w vs) : Keeps w (zip vs) Value.Sound := by
  refine (keeps_cursorsOf h).bind fun _ is _ _ => ?_
  cases is with
  | nil => exact .pure (Value.sound_list .nil)
  | cons i is =>
    refine (keeps_remaining i).bind fun _ rounds _ _ => ?_
    exact (keeps_zipLoop (i :: is) rounds .nil).map fun _ _ _ => Value.sound_list

end Run

theorem Callback.keeps_apply {w : World} (f : Callback) {v : Value} (h : v.Sound w) :
    Keeps w (f.apply v) Value.Sound := by
  cases f with
  | identity => exact .pure h
  | str => exact .get_bind fun s => .pure (Value.sound_str w _)
  | len => exact .check (.anything _) fun n _ => .pure (Value.sound_int w _)
  | hash => exact .check (.anything _) fun n _ => .pure (Value.sound_int w n)
  | iter => exact Run.keeps_iter h
  | list => exact Run.keeps_list h
  | tuple => exact Run.keeps_tuple h
  | sorted => exact Run.keeps_sorted h
  | min => exact Run.keeps_extremum .min h
  | sum => exact Run.keeps_sum h (Value.sound_int w 0)

namespace Run

variable {w : World}

theorem keeps_observeLoop (f : Callback) (i rounds : Nat) (seen : List View) :
    Keeps w (observeLoop i f.apply rounds seen) fun _ _ => True := by
  induction rounds generalizing w seen with
  | zero => exact .pure trivial
  | succ rounds ih =>
    refine (keeps_next i).bind fun now item _ hitem => ?_
    cases item with
    | none => exact .pure trivial
    | some x =>
      refine (f.keeps_apply (hitem x rfl)).attempt.bind fun later outcome _ _ => ?_
      cases outcome with
      | error e => exact .pure trivial
      | ok y => exact .get_bind fun s => ih _

theorem keeps_observe (f : Callback) {v : Value} (h : v.Sound w) :
    Keeps w (observe f.apply v) fun _ _ => True := by
  refine (keeps_cursorOf h).bind fun _ i _ _ => ?_
  exact (keeps_remaining i).bind fun _ rounds _ _ => keeps_observeLoop f i rounds []

end Run

namespace Host

variable (w : World)

theorem sound_ofInteger (n : Int) : (ofInteger n).Sound w := by
  unfold ofInteger
  split <;> exact .of_scalar trivial rfl

mutual

theorem sound_toValue : ∀ h : Host, h.toValue.Sound w
  | .null => .of_scalar trivial rfl
  | .bool _ => .of_scalar trivial rfl
  | .integer n => sound_ofInteger w n
  | .float _ => .of_scalar trivial rfl
  | .string t => Value.sound_str w t
  | .array items => Value.sound_list (sound_toValues items)
  | .object fields => sound_toDict fields .empty (Dict.sound_empty w)

theorem sound_toValues : ∀ hs : List Host, Items.Sound w (toValues hs)
  | [] => .nil
  | h :: hs => .cons (sound_toValue h) (sound_toValues hs)

theorem sound_toDict : ∀ (fields : List (Text × Host)) (d : Dict Value), (Value.dict d).Sound w →
    (Value.dict (toDict d fields)).Sound w
  | [], _, hd => hd
  | (name, h) :: fields, _, hd =>
    sound_toDict fields _ (Dict.sound_put hd (Key.sound_ofText w name) (sound_toValue h))

end

end Host
end DynamicValues
