import DynamicValues.Proofs.Session

/-!
Where the cursors are along a program. A computation is still if it moves no cursor; the rules for still
computations are simp lemmas, and with them every request that only looks at values turns out to be still.
Over a whole program a cursor keeps its items and moves forward only, and all copies of an iterator show
where it is, at any depth.
-/

set_option autoImplicit false

namespace DynamicValues

namespace Store

/-- The later store has the cursors of the earlier one where they were, and perhaps new ones at their
start. -/
structure Unmoved (s t : Store) : Prop where
  size_le : s.cursors.size ≤ t.cursors.size
  old : ∀ i, i < s.cursors.size → t.cursor i = s.cursor i
  new : ∀ i, s.cursors.size ≤ i → (t.cursor i).position = 0

variable {s t u : Store}

theorem cursor_of_size_le {i : Nat} (h : s.cursors.size ≤ i) : s.cursor i = .start [] := by
  simp [cursor, h]

namespace Unmoved

theorem refl (s : Store) : s.Unmoved s :=
  ⟨Nat.le_refl _, fun _ _ => rfl, fun _ h => by rw [cursor_of_size_le h]; rfl⟩

theorem trans (h : s.Unmoved t) (h' : t.Unmoved u) : s.Unmoved u := by
  refine ⟨h.size_le.trans h'.size_le, ?_, ?_⟩
  · intro i old
    rw [h'.old i (Nat.lt_of_lt_of_le old h.size_le), h.old i old]
  · intro i new
    by_cases made : i < t.cursors.size
    · rw [h'.old i made]
      exact h.new i new
    · exact h'.new i (Nat.le_of_not_lt made)

end Unmoved

theorem unmoved_addStorage (s : Store) : s.Unmoved s.addStorage.2 :=
  ⟨Nat.le_refl _, fun _ _ => rfl, fun _ h => by rw [cursor_addStorage, cursor_of_size_le h]; rfl⟩

theorem unmoved_addCursor (s : Store) (items : List Value) : s.Unmoved (s.addCursor items).2 := by
  refine ⟨by simp [addCursor], fun i old => cursor_addCursor_of_lt old, ?_⟩
  intro i new
  by_cases same : i = s.cursors.size
  · subst same
    exact congrArg Cursor.position (cursor_addCursor s items)
  · rw [cursor_of_size_le (by simp [addCursor]; omega)]
    rfl

end Store

section Still

variable {ε α β : Type}

/-- The computation moves no cursor, however it ends. -/
def Still (m : ExceptT ε (StateM Store) α) : Prop := ∀ s : Store, s.Unmoved (exec m s).2

namespace Still

@[simp] theorem pure (a : α) : Still (pure a : ExceptT ε (StateM Store) α) := fun s => .refl s

@[simp] theorem throw (e : ε) : Still (throw e : ExceptT ε (StateM Store) α) := fun s => .refl s

@[simp] theorem get : Still (get : ExceptT ε (StateM Store) Store) := fun s => .refl s

@[simp] theorem bind {m : ExceptT ε (StateM Store) α} {f : α → ExceptT ε (StateM Store) β} (hm : Still m)
    (hf : ∀ a, Still (f a)) : Still (m >>= f) :=
  related_bind Store.Unmoved (fun ab bc => ab.trans bc) hm hf

@[simp] theorem map {m : ExceptT ε (StateM Store) α} (f : α → β) (hm : Still m) : Still (f <$> m) := by
  rw [map_eq_pure_bind]
  exact hm.bind fun a => .pure (f a)

@[simp] theorem liftExcept (x : Except Error α) : Still (liftM x : Run α) := fun s => .refl s

end Still
end Still

namespace Eval

variable {α : Type}

@[simp] theorem still_lift {m : Run α} (h : Still m) : Still (liftM m : Eval α) := fun s => h s

@[simp] theorem still_liftExcept (x : Except Error α) : Still (liftM x : Eval α) := fun s => .refl s

@[simp] theorem still_store : Still store := .get

@[simp] theorem still_expect (o : Option α) : Still (expect o) := by
  cases o with
  | none => exact .throw _
  | some a => exact .pure a

end Eval

namespace Run

@[simp] theorem still_newCursor (items : List Value) : Still (newCursor items) :=
  fun s => s.unmoved_addCursor items

@[simp] theorem still_newIter (items : List Value) : Still (newIter items) := by simp [newIter]

@[simp] theorem still_newTuple (items : List Value) : Still (newTuple items) := by
  have storage : Still (modifyGet fun s => s.addStorage : Run Nat) := fun s => s.unmoved_addStorage
  simp [newTuple, storage]

@[simp] theorem still_cursorOf (v : Value) : Still (cursorOf v) := by
  cases v <;> simp [cursorOf]

@[simp] theorem still_iter (v : Value) : Still (iter v) := by simp [iter]

@[simp] theorem still_pairs (es : List (Entry Value)) : Still (pairs es) := by
  induction es with
  | nil => simp [pairs]
  | cons e es ih => simp [pairs, ih]

@[simp] theorem still_wrap (config : Config) (items : List Value) : Still (wrap config items) := by
  unfold wrap
  split <;> simp

@[simp] theorem still_range (config : Config) (r : Range) : Still (range config r) := by simp [range]

@[simp] theorem still_lazyRange (r : Range) : Still (lazyRange r) := by simp [lazyRange]

end Run

@[simp] theorem Value.still_getItem (v key : Value) : Still (v.getItem key) := by
  unfold getItem
  split
  · simp
  · split <;> simp
  · split <;> simp
  · simp
  · simp

namespace Literal

variable (vars : Variables)

mutual

theorem still_eval : ∀ l : Literal, Still (l.eval vars)
  | .none => .pure _
  | .bool _ => .pure _
  | .int _ => .pure _
  | .float _ => .pure _
  | .str _ => .pure _
  | .tuple items => (still_evalItems items).bind fun xs => Eval.still_lift (Run.still_newTuple xs)
  | .list items => (still_evalItems items).bind fun _ => .pure _
  | .dict bindings => (still_evalBindings bindings .empty).bind fun _ => .pure _
  | .slice _ => .pure _
  | .iter items => (still_evalItems items).bind fun xs => Eval.still_lift (Run.still_newIter xs)
  | .var name => by
    unfold eval
    split <;> simp

theorem still_evalItems : ∀ ls : List Literal, Still (evalItems vars ls)
  | [] => .pure _
  | l :: ls => (still_eval l).bind fun _ => (still_evalItems ls).bind fun _ => .pure _

theorem still_evalBindings : ∀ (bindings : List (Literal × Literal)) (d : Dict Value),
    Still (evalBindings vars d bindings)
  | [], _ => .pure _
  | (key, value) :: rest, _ =>
    (still_eval key).bind fun _ => (still_eval value).bind fun _ =>
      (Eval.still_liftExcept _).bind fun d => still_evalBindings rest d

end

end Literal

/-- Queries that may take items from cursors. All others only look at values, or make new ones. -/
def Query.walks : Query → Bool
  | .value .contains | .text .join | .iter .next | .iter .copy | .iter .iterate | .dict .ofPairs
  | .function .map | .function .zip | .function .min | .function .max | .function .sum | .function .tuple
  | .function .list | .function .dict | .function .sorted => true
  | _ => false

section Queries

variable {operands : List Value}

theorem ValueQuery.still_run {q : ValueQuery} (h : (Query.value q).walks = false) : Still (q.run operands) := by
  unfold run
  split <;> simp_all [Query.walks]
  · refine .bind .get fun s => ?_
    split <;> simp

theorem SequenceQuery.still_run (q : SequenceQuery) (v : Value) (xs : List Value) :
    Still (q.run v xs operands) := by
  unfold run
  split <;> simp

theorem TextQuery.still_run {q : TextQuery} (h : (Query.text q).walks = false) (t : Text) :
    Still (q.run t operands) := by
  unfold run
  split <;> simp_all [Query.walks]

theorem SliceQuery.still_run (q : SliceQuery) : Still (q.run operands) := by
  unfold run
  split <;> simp

theorem IterQuery.still_run {q : IterQuery} (h : (Query.iter q).walks = false) : Still (q.run operands) := by
  unfold run
  split <;> simp_all [Query.walks]

theorem DictQuery.still_bindings {key : Value → Eval Key} (hkey : ∀ k, Still (key k)) (d : Dict Value) :
    Still (bindings key d operands) := by
  induction d, operands using bindings.induct with
  | case1 d => simp [bindings]
  | case2 d k v rest ih => simp [bindings, hkey, ih]
  | case3 d v => simp [bindings]

theorem DictQuery.still_textKey (v : Value) : Still (textKey v) := by
  unfold textKey
  split <;> simp

theorem DictQuery.still_run {q : DictQuery} (h : (Query.dict q).walks = false) : Still (q.run operands) := by
  unfold run
  split <;> simp_all [Query.walks]
  · exact .map _ (still_bindings (fun k => Eval.still_liftExcept _) _)
  · exact .map _ (still_bindings still_textKey _)

theorem FunctionQuery.still_run {q : FunctionQuery} (h : (Query.function q).walks = false) :
    Still (q.run operands) := by
  unfold run
  split <;> simp_all [Query.walks]

theorem HashQuery.still_run (q : HashQuery) : Still (q.run operands) := by
  unfold run
  split <;> simp

theorem Query.still_run {q : Query} (h : q.walks = false) : Still (q.run operands) := by
  unfold run
  split
  · split <;> simp
  · exact ValueQuery.still_run h
  · split <;> simp [SequenceQuery.still_run]
  · split
    · exact TextQuery.still_run h _
    · simp
  · exact SliceQuery.still_run _
  · exact IterQuery.still_run h
  · exact DictQuery.still_run h
  · exact FunctionQuery.still_run h
  · exact HashQuery.still_run _

end Queries

/-- Commands that may take items from a cursor: those that put the items of a value into a list. -/
def Command.walks : Command → Bool
  | .item .set | .list .extend | .list .setSlice => true
  | _ => false

section Commands

variable {operands : List Value}

theorem ItemEdit.still_delete (key v : Value) : Still ((delete key).result v) := by
  rw [delete, Act.result_receiver_bind]
  cases v with
  | list xs | dict d =>
    dsimp only
    rw [Act.result_within, Act.result_edit]
    simp
  | _ => exact .throw _

theorem ItemCommand.still_run {c : ItemCommand} (h : (Command.item c).walks = false) (v : Value) :
    Still (c.run v operands) := by
  unfold run act
  split <;> simp only [Act.result_act_bind, Act.result_pure, Act.result_throw]
  · cases h
  · exact .bind (Eval.still_lift (ItemEdit.still_delete _ v)) fun _ => .pure _
  · exact .throw _

theorem ListCommand.still_run {c : ListCommand} (h : (Command.list c).walks = false) (xs : List Value) :
    Still (c.run xs operands) := by
  unfold run act
  split <;> simp only [Act.result_run_bind, Act.result_edit_bind, Act.result_act_bind, Act.result_pure,
    Act.result_throw] <;> simp_all [Command.walks]

theorem DictCommand.still_run (c : DictCommand) (d : Dict Value) : Still (c.run d operands) := by
  unfold run act
  split <;> simp only [Act.result_receiver_bind, Act.result_run_bind, Act.result_except_bind,
    Act.result_eval_bind, Act.result_edit_bind, Act.result_pure, Act.result_throw] <;> simp
  · exact (Eval.still_liftExcept _).bind fun _ => .map _ (Eval.still_lift (Run.still_newTuple _))

theorem Command.still_run {c : Command} (h : c.walks = false) (v : Value) : Still (c.run v operands) := by
  cases c with
  | item c => exact ItemCommand.still_run h v
  | list c =>
    by_cases kind : v.kind = .list
    · cases v with
      | list xs =>
        rw [run_list]
        exact (ListCommand.still_run h xs).bind fun _ => .pure _
      | _ => cases kind
    · rw [run_list_of_ne c kind]
      exact .throw _
  | dict c =>
    by_cases kind : v.kind = .dict
    · cases v with
      | dict d =>
        rw [run_dict]
        exact (DictCommand.still_run c d).bind fun _ => .pure _
      | _ => cases kind
    · rw [run_dict_of_ne c kind]
      exact .throw _

end Commands

def Request.walks : Request → Bool
  | .query q _ => q.walks
  | .command c _ => c.walks
  | _ => false

namespace Session

variable (s : Session)

theorem store_putBack (v : Value) (origin : Literal) : (s.putBack v origin).store = s.store := by
  cases origin <;> rfl

theorem store_take (target : Option String) (outcome : Except Fault (Reply Value)) :
    (s.take target outcome).store = s.store := by
  unfold take
  split
  · next name reply => cases reply.value? <;> rfl
  · rfl

theorem Evaluates.unmoved {s t : Session} {literals : List Literal} {operands : List Value}
    (h : s.Evaluates literals operands t) : s.store.Unmoved t.store := by
  have still := Literal.still_evalItems s.vars literals s.store
  rw [h.exec_eq] at still
  exact still

theorem unmoved_command {c : Command} (h : c.walks = false) (literals : List Literal) :
    s.store.Unmoved (s.perform (.command c literals)).2.2.store := by
  rcases s.command_cases c literals with ⟨fault, refused⟩ | ⟨origin, rest, v, operands, t, rfl, evaluates⟩
  · rw [refused]
    exact Literal.still_evalItems s.vars literals s.store
  · have ran : t.store.Unmoved (t.eval (c.run v operands)).2.store := Command.still_run h v t.store
    rcases performed : t.eval (c.run v operands) with ⟨fault | ⟨reply, receiver⟩, u⟩
    · rw [performed] at ran
      rw [evaluates.perform_of_error performed]
      exact evaluates.unmoved.trans ran
    · rw [performed] at ran
      rw [evaluates.perform_of_ok performed, store_putBack]
      exact evaluates.unmoved.trans ran

theorem unmoved_perform {r : Request} (h : r.walks = false) : s.store.Unmoved (s.perform r).2.2.store := by
  cases r with
  | query q operands =>
    have run : Still (do q.run (← Literal.evalItems s.vars operands)) :=
      (Literal.still_evalItems s.vars operands).bind fun _ => Query.still_run h
    exact run s.store
  | command c operands => exact s.unmoved_command h operands
  | fromHost h => exact .refl _
  | readConfig h =>
    unfold perform
    dsimp only
    split <;> exact .refl _

theorem unmoved_step {call : Call} (h : call.request.walks = false) (watch : List String) :
    s.store.Unmoved (s.step watch call).2.store := by
  have performed := s.unmoved_perform h
  unfold step
  dsimp only
  rw [store_take]
  exact performed

end Session

namespace Store

variable {s t : Store} {w later : World}

namespace Sound

theorem position_le_total (hs : s.Sound w) (i : Nat) : (s.cursor i).position ≤ (s.cursor i).total := by
  by_cases made : i < s.cursors.size
  · have mem : s.cursor i ∈ s.cursors := by simp [cursor, made]
    exact hs.position_le _ mem
  · rw [cursor_of_size_le (Nat.le_of_not_lt made)]
    exact Nat.zero_le _

theorem getElem?_cursors (hs : s.Sound w) {i : Nat} (made : i < s.cursors.size) :
    w.cursors[i]? = some (s.cursor i).items := by
  simp [← hs.cursors, cursor, made]

end Sound

/-- The later store has all cursors of the earlier one, with the same items, and none of them went back. -/
structure Continues (s t : Store) : Prop where
  size_le : s.cursors.size ≤ t.cursors.size
  items_eq : ∀ i, i < s.cursors.size → (t.cursor i).items = (s.cursor i).items
  forward : ∀ i, (s.cursor i).position ≤ (t.cursor i).position

/-- The items of a cursor stand in the world, and later worlds only add to it. -/
theorem continues_of_evolves (hs : s.Sound w) (h : Evolves w s later t) : s.Continues t := by
  have size_le : s.cursors.size ≤ t.cursors.size := by
    rw [hs.size_eq, h.sound.size_eq]
    exact h.grows.cursors.length_le
  refine ⟨size_le, ?_, h.forward⟩
  intro i made
  obtain ⟨more, cursors⟩ := h.grows.cursors
  have before := hs.getElem?_cursors made
  have after := h.sound.getElem?_cursors (Nat.lt_of_lt_of_le made size_le)
  rw [← cursors, List.getElem?_append_left (hs.size_eq ▸ made), before] at after
  exact (Option.some.inj after).symm

namespace Continues

variable {i : Nat}

theorem total_eq (h : s.Continues t) (made : i < s.cursors.size) : (t.cursor i).total = (s.cursor i).total :=
  congrArg Array.size (h.items_eq i made)

theorem remaining_le (h : s.Continues t) (made : i < s.cursors.size) :
    (t.cursor i).remaining ≤ (s.cursor i).remaining := by
  have forward := h.forward i
  rw [Cursor.remaining, Cursor.remaining, h.total_eq made]
  omega

end Continues
end Store

section Places

/-- The items of a tuple or a list, and the keys and values of a dict, as they are shown. -/
def View.parts : View → List View
  | .tuple xs => xs
  | .list xs => xs
  | .dict bindings => bindings.flatMap fun (key, value) => [key, value]
  | _ => []

/-- What stands at a place of a value. A place is reached by going to a part again and again. -/
def Value.descend? : List Nat → Value → Option Value
  | [], v => some v
  | n :: place, v => v.parts[n]?.bind (descend? place)

def View.descend? : List Nat → View → Option View
  | [], v => some v
  | n :: place, v => v.parts[n]?.bind (descend? place)

variable (store : Store)

theorem Value.viewItems_eq_map (xs : List Value) : viewItems store xs = xs.map (view store) := by
  induction xs with
  | nil => rfl
  | cons x xs ih => simp [viewItems, ih]

theorem Value.viewEntries_eq_map (es : List (Entry Value)) :
    viewEntries store es = es.map fun e => (e.key.view store, e.value.view store) := by
  induction es with
  | nil => rfl
  | cons e es ih => simp [viewEntries, ih]

theorem Value.parts_view (v : Value) : (v.view store).parts = v.parts.map (view store) := by
  cases v with
  | tuple i xs => simp [view, View.parts, parts, viewItems_eq_map]
  | list xs => simp [view, View.parts, parts, viewItems_eq_map]
  | dict d => simp [view, View.parts, parts, viewEntries_eq_map, List.map_flatMap, List.flatMap_map]
  | _ => rfl

/-- A view shows at every place what stands there. -/
theorem Value.descend?_view (place : List Nat) (v : Value) :
    (v.view store).descend? place = (v.descend? place).map (view store) := by
  induction place generalizing v with
  | nil => rfl
  | cons n place ih =>
    rw [View.descend?, descend?, parts_view, List.getElem?_map]
    cases v.parts[n]? with
    | none => rfl
    | some part => exact ih part

end Places

theorem Value.eq_iter_of_beq {i : Nat} {v : Value} (h : (iter i == v) = true) : v = iter i := by
  cases same_of_beq h with
  | number counts => cases counts
  | iter => rfl

theorem Session.Sound.iter_lt {s : Session} {w : World} (hs : s.Sound w) {i : Nat} (h : s.Holds (.iter i)) :
    i < s.store.cursors.size :=
  hs.store.size_eq ▸ (hs.of_holds h).fits

/-- What an iterator reports about itself is read off its cursor as it was before the operands. -/
theorem Session.Evaluates.cursor_reported {s t : Session} {literals : List Literal} {i : Nat}
    {rest : List Value} (h : s.Evaluates literals (.iter i :: rest) t) (made : i < s.store.cursors.size) :
    (s.perform (.query (.iter .position) literals)).1 = .ok (.nat (s.store.cursor i).position) ∧
      (s.perform (.query (.iter .remaining) literals)).1 = .ok (.nat (s.store.cursor i).remaining) := by
  rw [h.perform_query, h.perform_query, ← h.unmoved.old i made]
  exact ⟨rfl, rfl⟩

/-- Along a program, the cursor of every iterator keeps its items, never goes back, and never leaves its
items. All copies of an iterator show and report this one cursor, wherever they stand. Requests that do not
walk move no cursor. -/
theorem cursors_along_program {s t : Session} {watch : List String} {calls : List Call}
    (reachable : s.Reachable) (ran : (s.run watch calls).2 = t) :
    (∀ i, s.Holds (.iter i) → i < s.store.cursors.size) ∧
    (∀ i, i < s.store.cursors.size → i < t.store.cursors.size ∧
      (t.store.cursor i).items = (s.store.cursor i).items ∧
      (t.store.cursor i).total = (s.store.cursor i).total ∧
      (s.store.cursor i).position ≤ (t.store.cursor i).position ∧
      (t.store.cursor i).position ≤ (t.store.cursor i).total ∧
      (t.store.cursor i).position + (t.store.cursor i).remaining = (t.store.cursor i).total ∧
      ((s.store.cursor i).remaining = 0 → (t.store.cursor i).remaining = 0)) ∧
    (∀ (u v copy : Value) (here there : List Nat) (i : Nat), u.descend? here = some (.iter i) →
      v.descend? there = some copy → (.iter i == copy) = true →
        (u.view t.store).descend? here = some (.iter (t.store.cursor i).position (t.store.cursor i).total) ∧
        (v.view t.store).descend? there = (u.view t.store).descend? here) ∧
    (∀ literals i rest u, t.Evaluates literals (.iter i :: rest) u → i < t.store.cursors.size →
      (t.perform (.query (.iter .position) literals)).1 = .ok (.nat (t.store.cursor i).position) ∧
      (t.perform (.query (.iter .remaining) literals)).1 = .ok (.nat (t.store.cursor i).remaining)) ∧
    ∀ call : Call, call.request.walks = false → t.store.Unmoved (t.step watch call).2.store := by
  obtain ⟨w, hs⟩ := reachable.exists_sound
  obtain ⟨later, leads⟩ := Session.leads_run hs watch calls
  rw [ran] at leads
  refine ⟨fun i => hs.iter_lt, ?_, ?_, ?_, fun call h => t.unmoved_step h watch⟩
  · intro i made
    have continues := Store.continues_of_evolves hs.store leads.store
    have position_le := leads.store.sound.position_le_total i
    refine ⟨Nat.lt_of_lt_of_le made continues.size_le, continues.items_eq i made, continues.total_eq made,
      continues.forward i, position_le, Nat.add_sub_of_le position_le, ?_⟩
    intro exhausted
    exact Nat.le_zero.1 (exhausted ▸ continues.remaining_le made)
  · intro u v copy here there i stands stands' equal
    obtain rfl := Value.eq_iter_of_beq equal
    rw [Value.descend?_view, Value.descend?_view, stands, stands']
    exact ⟨rfl, rfl⟩
  · intro literals i rest u evaluates made
    exact evaluates.cursor_reported made

namespace Box

/-- An iterator, and a list that holds it twice, once inside a dict. -/
def program : List Call :=
  [⟨.query .identity [.iter [.int 1, .int 2]], some "walk"⟩,
    ⟨.query .identity [.list [.var "walk", .dict [(.int 1, .var "walk")]]], some "box"⟩]

def session : Session := (Session.empty.run [] program).2

def box : Value := .list [.iter 0, .dict ⟨[⟨1, .int 1, .iter 0⟩]⟩]

def next : Call := ⟨.query (.iter .next) [.var "walk"], none⟩

def compare : Call := ⟨.query (.value .eq) [.var "walk", .var "box"], none⟩

def moved : Session := (session.run [] [next]).2

theorem reachable_session : session.Reachable := ⟨[], program, rfl⟩

theorem run_next : (session.run [] [next]).2 = moved := rfl

theorem holds_box : session.Holds box := .of_var "box" (.head _)

theorem holds_iter : session.Holds (.iter 0) := holds_box.part (.head _)

end Box

/-- An item that is taken through the variable is gone in both places of the list, and comparing the two
takes none. -/
theorem box_along_program :
    Box.session.Holds (.iter 0) ∧
      (Box.box.view Box.moved.store).descend? [0] = some (.iter 1 2) ∧
      (Box.box.view Box.moved.store).descend? [1, 1] = some (.iter 1 2) ∧
      Box.moved.store.Unmoved (Box.moved.step [] Box.compare).2.store := by
  obtain ⟨-, -, shown, -, still⟩ := cursors_along_program Box.reachable_session Box.run_next
  obtain ⟨first, second⟩ := shown Box.box Box.box (.iter 0) [0] [1, 1] 0 rfl rfl rfl
  exact ⟨Box.holds_iter, first, second.trans first, still Box.compare rfl⟩

end DynamicValues
