import DynamicValues.Proofs.Cursors
import DynamicValues.Proofs.Drain

/-!
Commands that fail leave no trace. The receiver and all variables are as they were, and no cursor has moved.
There is one exception: a slice assignment counts the values only after it has taken them, so that an
iterator is exhausted when its items turn out to be too many or too few.
-/

set_option autoImplicit false

namespace DynamicValues

/-- Kinds of values that have items. -/
def Kind.walkable : Kind → Bool
  | .str | .tuple | .list | .dict | .iter => true
  | _ => false

namespace Store

variable {s t : Store} {i : Nat} {v : Value}

/-- The value has been walked to its end: if it is an iterator, that one has no items left, and all other
cursors are where they were. -/
structure Consumed (s : Store) (v : Value) (t : Store) : Prop where
  others : ∀ j, j < s.cursors.size → v ≠ .iter j → t.cursor j = s.cursor j
  items_eq : ∀ j, v = .iter j → (t.cursor j).items = (s.cursor j).items
  exhausted : ∀ j, v = .iter j → (t.cursor j).remaining = 0

theorem remaining_skip_remaining (s : Store) (i : Nat) :
    ((s.skip i (s.cursor i).remaining).cursor i).remaining = 0 := by
  rw [← Cursor.length_rest, rest_skip, ← Cursor.length_rest, List.drop_length, List.length_nil]

theorem consumed_iter (s : Store) (i : Nat) : s.Consumed (.iter i) (s.skip i (s.cursor i).remaining) := by
  refine ⟨?_, ?_, ?_⟩
  · intro j _ other
    exact cursor_skip_of_ne (fun same => other (congrArg Value.iter same)) _
  · rintro j ⟨⟩
    exact items_skip s i _ i
  · rintro j ⟨⟩
    exact s.remaining_skip_remaining i

/-- A container is walked with a cursor of its own. -/
theorem consumed_of_new (h : s.Unmoved t) (container : v.kind ≠ .iter) (new : s.cursors.size ≤ i) (n : Nat) :
    s.Consumed v (t.skip i n) := by
  refine ⟨?_, ?_, ?_⟩
  · intro j old _
    rw [cursor_skip_of_ne (by omega), h.old j old]
  all_goals
    rintro j rfl
    exact absurd rfl container

end Store

namespace Run

variable {v : Value}

theorem exec_cursorOf_of_not_walkable (h : v.kind.walkable = false) (s : Store) :
    exec (cursorOf v) s = (.error (.notIterable v.kind), s) := by
  cases v with
  | str _ | tuple _ _ | list _ | dict _ | iter _ => cases h
  | _ => rfl

/-- A cursor comes without any other one moving, and walking it to its end consumes the value. -/
theorem exec_cursorOf_of_walkable (h : v.kind.walkable = true) (s : Store) :
    ∃ i t, exec (cursorOf v) s = (.ok i, t) ∧ s.Unmoved t ∧
      s.Consumed v (t.skip i (t.cursor i).remaining) := by
  have fresh (items : List Value) (container : v.kind ≠ .iter)
      (made : exec (cursorOf v) s = (.ok s.cursors.size, (s.addCursor items).2)) :
      ∃ i t, exec (cursorOf v) s = (.ok i, t) ∧ s.Unmoved t ∧
        s.Consumed v (t.skip i (t.cursor i).remaining) :=
    ⟨_, _, made, s.unmoved_addCursor items,
      Store.consumed_of_new (s.unmoved_addCursor items) container (Nat.le_refl _) _⟩
  cases v with
  | iter i => exact ⟨i, s, rfl, .refl s, s.consumed_iter i⟩
  | str t => exact fresh _ (by simp [Value.kind]) rfl
  | tuple j xs => exact fresh _ (by simp [Value.kind]) rfl
  | list xs => exact fresh _ (by simp [Value.kind]) rfl
  | dict d => exact fresh _ (by simp [Value.kind]) rfl
  | _ => cases h

end Run

theorem Slice.resolve_of_step_zero {sl : Slice} (h : sl.step = some 0) (len : Nat) :
    sl.resolve len = .error .zeroStep := by
  simp [resolve, indices?, h]

theorem Slice.eq_zeroStep_of_resolve {sl : Slice} {len : Nat} {e : Error} (h : sl.resolve len = .error e) :
    e = .zeroStep := by
  unfold resolve at h
  split at h
  · cases h
  · cases h
    rfl

theorem Items.eq_sizeMismatch_of_assign {xs values : List Value} {r : Indices} {e : Error}
    (h : assign xs r values = .error e) : ∃ given selected, e = .sizeMismatch given selected := by
  rw [assign_eq] at h
  split at h
  · cases h
  · split at h
    · cases h
      exact ⟨_, _, rfl⟩
    · cases h

namespace Value

variable {values : Value}

theorem exec_assignSlice_of_not_walkable (h : values.kind.walkable = false) (xs : List Value) (sl : Slice)
    (s : Store) : exec (assignSlice xs sl values) s = (.error (.notIterable values.kind), s) := by
  rw [assignSlice_eq, exec_bind, Run.exec_cursorOf_of_not_walkable h]

/-- The slice is resolved before any value is taken, and the values are counted after all are. -/
theorem exec_assignSlice_of_walkable (h : values.kind.walkable = true) (xs : List Value) (sl : Slice)
    (s : Store) :
    (sl.resolve xs.length = .error .zeroStep ∧
      ∃ t, exec (assignSlice xs sl values) s = (.error .zeroStep, t) ∧ s.Unmoved t) ∨
    ∃ r items t, sl.resolve xs.length = .ok r ∧
      exec (assignSlice xs sl values) s = (Items.assign xs r items, t) ∧ s.Consumed values t := by
  obtain ⟨i, t, found, unmoved, consumed⟩ := Run.exec_cursorOf_of_walkable h s
  rw [assignSlice_eq, exec_bind, found]
  dsimp only
  rw [exec_bind]
  cases resolved : sl.resolve xs.length with
  | error e =>
    obtain rfl := Slice.eq_zeroStep_of_resolve resolved
    exact .inl ⟨rfl, t, rfl, unmoved⟩
  | ok r =>
    refine .inr ⟨r, (t.cursor i).rest, _, rfl, ?_, consumed⟩
    change exec (Run.drain i >>= fun items => liftM (Items.assign xs r items)) t = _
    rw [exec_bind, Run.exec_drain]
    rfl

end Value

/-- Only slices of lists take the items of a value. -/
theorem ItemEdit.still_set {v key : Value} (h : ∀ xs sl, v = .list xs → key ≠ .slice sl) (new : Value) :
    Still ((set key new).result v) := by
  rw [set, Act.result_receiver_bind]
  cases v with
  | list xs =>
    have byIndex : ListEdit.setItem key new = (do ListEdit.set (← Sequence.indexWord .list key) new) := by
      cases key with
      | slice sl => exact absurd rfl (h xs sl rfl)
      | _ => rfl
    dsimp only
    rw [Act.result_within, byIndex, Act.result_check_bind]
    simp [Act.result_edit]
  | dict d =>
    dsimp only
    rw [Act.result_within, Act.result_edit]
    simp
  | _ => exact .throw _

theorem Still.failsWith {ε α : Type} {m : ExceptT ε (StateM Store) α} (h : Still m) :
    FailsWith Store.Unmoved m :=
  .of_all h

theorem Eval.failsWith_lift {α : Type} {rel : Store → Store → Prop} {m : Run α} (h : FailsWith rel m) :
    FailsWith rel (liftM m : Eval α) := by
  intro s e u failed
  have first := h s
  rw [Eval.exec_lift] at failed
  generalize exec m s = executed at first failed
  obtain ⟨e' | a, t⟩ := executed
  · cases failed
    exact first _ _ rfl
  · cases failed

/-- A walk to the end cannot fail, so only the lack of items can. -/
theorem Run.failsWith_itemsOf (v : Value) : FailsWith Store.Unmoved (itemsOf v) := by
  refine .bind (fun ab bc => ab.trans bc) (still_cursorOf v) fun i s e t failed => ?_
  rw [exec_drain] at failed
  cases failed

theorem ItemCommand.exec_set_slice (xs : List Value) (sl : Slice) (values : Value) (rest : List Value) (s : Store) :
    exec (ItemCommand.set.run (.list xs) (.slice sl :: values :: rest)) s =
      (((exec (Value.assignSlice xs sl values) s).1.mapError Fault.error).map fun ys =>
        (Reply.none, Value.list ys), (exec (Value.assignSlice xs sl values) s).2) := by
  rw [run, act, Act.result_act_bind, exec_bind, Eval.exec_lift, ItemEdit.set, Act.result_receiver_bind]
  dsimp only
  rw [Act.result_within, exec_bind, ListEdit.setItem, Value.assignSlice, Act.on, exec_bind]
  rcases exec ((ListEdit.setSlice sl values).result xs) s with ⟨e | p, t⟩ <;> rfl

theorem ListCommand.exec_setSlice (xs : List Value) (sl : Slice) (values : Value) (rest : List Value) (s : Store) :
    exec (ListCommand.setSlice.run xs (.slice sl :: values :: rest)) s =
      (((exec (Value.assignSlice xs sl values) s).1.mapError Fault.error).map (Reply.none, ·),
        (exec (Value.assignSlice xs sl values) s).2) := by
  rw [run, act, Act.result_act_bind, exec_bind, Eval.exec_lift, Value.assignSlice, Act.on, exec_bind]
  rcases exec ((ListEdit.setSlice sl values).result xs) s with ⟨e | p, t⟩ <;> rfl

namespace Command

variable {c : Command} {v : Value} {operands : List Value}

/-- The slice and the values of a slice assignment. -/
def slice? : Command → List Value → Option (Slice × Value)
  | .item .set, .slice sl :: values :: _ => some (sl, values)
  | .list .setSlice, .slice sl :: values :: _ => some (sl, values)
  | _, _ => none

theorem exec_of_slice? {sl : Slice} {values : Value} (h : c.slice? operands = some (sl, values))
    (xs : List Value) (s : Store) :
    exec (c.run (.list xs) operands) s =
      (((exec (Value.assignSlice xs sl values) s).1.mapError Fault.error).map fun ys =>
        (Reply.none, Value.list ys), (exec (Value.assignSlice xs sl values) s).2) := by
  unfold slice? at h
  split at h
  · next rest =>
    cases h
    exact ItemCommand.exec_set_slice xs sl values rest s
  · cases h
    rw [run_list, exec_bind, ListCommand.exec_setSlice]
    rcases exec (Value.assignSlice xs sl values) s with ⟨e | ys, t⟩ <;> rfl
  · cases h

end Command

section Commands

variable {v : Value} {operands : List Value}

theorem ItemCommand.failsWith_run {c : ItemCommand}
    (h : ∀ xs, v = .list xs → (Command.item c).slice? operands = none) :
    FailsWith Store.Unmoved (c.run v operands) := by
  unfold run act
  split <;> simp only [Act.result_act_bind, Act.result_pure, Act.result_throw]
  · next key new rest =>
    have apart : ∀ xs sl, v = .list xs → key ≠ .slice sl := by
      rintro xs sl rfl rfl
      cases h xs rfl
    exact (Still.bind (Eval.still_lift (ItemEdit.still_set apart new)) fun _ => .pure _).failsWith
  · exact (Still.bind (Eval.still_lift (ItemEdit.still_delete _ v)) fun _ => .pure _).failsWith
  · exact (Still.throw _).failsWith

theorem ListCommand.failsWith_run {c : ListCommand} (h : (Command.list c).slice? operands = none)
    (xs : List Value) : FailsWith Store.Unmoved (c.run xs operands) := by
  cases c with
  | extend =>
    cases operands with
    | nil => exact (Still.throw _).failsWith
    | cons v rest =>
      rw [run, act, Act.result_run_bind]
      exact .andThen (Eval.failsWith_lift (Run.failsWith_itemsOf v)) fun _ s => ⟨_, s, rfl⟩
  | setSlice =>
    have malformed : act .setSlice operands = throw .malformed := by
      unfold act
      split <;> simp_all [Command.slice?]
    rw [run, malformed]
    exact (Still.throw _).failsWith
  | _ => exact (still_run rfl xs).failsWith

/-- Only a slice assignment to a list can have moved a cursor when it fails. -/
theorem Command.failsWith_run {c : Command} (h : ∀ xs, v = .list xs → c.slice? operands = none) :
    FailsWith Store.Unmoved (c.run v operands) := by
  cases c with
  | item c => exact ItemCommand.failsWith_run h
  | list c =>
    by_cases kind : v.kind = .list
    · cases v with
      | list xs =>
        rw [run_list]
        exact .andThen (ListCommand.failsWith_run (h xs rfl) xs) fun _ s => ⟨_, s, rfl⟩
      | _ => cases kind
    · rw [run_list_of_ne c kind]
      exact (Still.throw _).failsWith
  | dict c => exact (still_run rfl v).failsWith

end Commands

namespace Command

variable {c : Command} {v values : Value} {operands : List Value} {fault : Fault}

/-- The command assigns `values` to a slice of a list, and fails because their number is wrong. -/
structure Mismatches (c : Command) (v : Value) (operands : List Value) (fault : Fault) (values : Value) :
    Prop where
  receiver : ∃ xs, v = .list xs
  assigns : ∃ sl, c.slice? operands = some (sl, values)
  mismatch : ∃ given selected, fault = .error (.sizeMismatch given selected)

theorem assignment_failed {xs : List Value} {sl : Slice} {s t : Store}
    (assigns : c.slice? operands = some (sl, values))
    (failed : exec (c.run (.list xs) operands) s = (.error fault, t)) :
    (s.Unmoved t ∧ ∀ given selected, fault ≠ .error (.sizeMismatch given selected)) ∨
      (s.Consumed values t ∧ ∃ given selected, fault = .error (.sizeMismatch given selected)) := by
  rw [exec_of_slice? assigns] at failed
  cases walkable : values.kind.walkable with
  | false =>
    rw [Value.exec_assignSlice_of_not_walkable walkable] at failed
    cases failed
    exact .inl ⟨.refl s, nofun⟩
  | true =>
    rcases Value.exec_assignSlice_of_walkable walkable xs sl s with
      ⟨-, u, stopped, unmoved⟩ | ⟨r, items, u, -, assigned, consumed⟩
    · rw [stopped] at failed
      cases failed
      exact .inl ⟨unmoved, nofun⟩
    · rw [assigned] at failed
      cases outcome : Items.assign xs r items with
      | ok ys =>
        rw [outcome] at failed
        cases failed
      | error e =>
        obtain ⟨given, selected, rfl⟩ := Items.eq_sizeMismatch_of_assign outcome
        rw [outcome] at failed
        cases failed
        exact .inr ⟨consumed, given, selected, rfl⟩

theorem unmoved_of_failed {s t : Store} (failed : exec (c.run v operands) s = (.error fault, t))
    (regular : ∀ values, ¬c.Mismatches v operands fault values) : s.Unmoved t := by
  by_cases simple : ∀ xs, v = .list xs → c.slice? operands = none
  · exact failsWith_run simple s fault t failed
  · push Not at simple
    obtain ⟨xs, rfl, some⟩ := simple
    obtain ⟨⟨sl, values⟩, assigns⟩ := Option.ne_none_iff_exists'.1 some
    rcases assignment_failed assigns failed with ⟨unmoved, -⟩ | ⟨-, mismatch⟩
    · exact unmoved
    · exact absurd ⟨⟨xs, rfl⟩, ⟨sl, assigns⟩, mismatch⟩ (regular values)

theorem Mismatches.consumed {s t : Store} (h : c.Mismatches v operands fault values)
    (failed : exec (c.run v operands) s = (.error fault, t)) : s.Consumed values t := by
  obtain ⟨⟨xs, rfl⟩, ⟨sl, assigns⟩, given, selected, rfl⟩ := h
  rcases assignment_failed assigns failed with ⟨-, other⟩ | ⟨consumed, -⟩
  · exact absurd rfl (other given selected)
  · exact consumed

end Command

namespace Session

variable {s t u : Session} {c : Command} {origin : Literal} {literals : List Literal} {v : Value}
  {operands : List Value} {fault : Fault} {receiver : Option Value}

theorem Evaluates.of_perform_error (h : s.Evaluates (origin :: literals) (v :: operands) t)
    (failed : s.perform (.command c (origin :: literals)) = (.error fault, receiver, u)) :
    receiver = some v ∧ t.eval (c.run v operands) = (.error fault, u) := by
  rcases performed : t.eval (c.run v operands) with ⟨fault' | ⟨reply, w⟩, u'⟩
  · rw [h.perform_of_error performed] at failed
    cases failed
    exact ⟨rfl, rfl⟩
  · rw [h.perform_of_ok performed] at failed
    cases failed

theorem step_of_perform_error {r : Request} (failed : s.perform r = (.error fault, receiver, u))
    (watch : List String) (target : Option String) : (s.step watch ⟨r, target⟩).2 = u := by
  unfold step
  dsimp only
  rw [failed]
  cases target <;> rfl

end Session

/-- A command that fails leaves its receiver, all variables and all cursors as they were, but for the
iterator whose items did not fit into a slice: that one is exhausted. What has no items, and a slice of step
zero, are noticed before any item is taken. Texts and tuples take no assignments and no deletions. A command
writes into its receiver as it goes along, and whatever the receiver was, it is the same after a failure. -/
theorem failed_command_leaves_no_trace {s t : Session} {c : Command} {origin : Literal}
    {literals : List Literal} {v : Value} {operands : List Value}
    (evaluates : s.Evaluates (origin :: literals) (v :: operands) t) :
    (∀ fault receiver u, s.perform (.command c (origin :: literals)) = (.error fault, receiver, u) →
      receiver = some v ∧ u.vars = s.vars ∧
      (∀ watch target, (s.step watch ⟨.command c (origin :: literals), target⟩).2 = u) ∧
      ((∀ values, ¬c.Mismatches v operands fault values) → s.store.Unmoved u.store) ∧
      ∀ values, c.Mismatches v operands fault values →
        s.store.Unmoved t.store ∧ t.store.Consumed values u.store) ∧
    (∀ xs sl values, v = .list xs → c.slice? operands = some (sl, values) →
      (values.kind.walkable = false → s.perform (.command c (origin :: literals)) =
        (.error (.error (.notIterable values.kind)), some v, t)) ∧
      (values.kind.walkable = true → sl.step = some 0 → ∃ u, s.store.Unmoved u.store ∧
        s.perform (.command c (origin :: literals)) = (.error (.error .zeroStep), some v, u))) ∧
    (v.kind = .str ∨ v.kind = .tuple →
      (∀ key new rest, c = .item .set → operands = key :: new :: rest →
        s.perform (.command c (origin :: literals)) =
          (.error (.error (.noItemAssignment v.kind)), some v, t)) ∧
      ∀ key rest, c = .item .delete → operands = key :: rest →
        s.perform (.command c (origin :: literals)) =
          (.error (.error (.noItemDeletion v.kind)), some v, t)) ∧
    ∀ before store fault after store',
      exec (c.act operands) (before, store) = (.error fault, after, store') → after = before := by
  refine ⟨?_, ?_, ?_, ?_⟩
  · intro fault receiver u failed
    obtain ⟨receiver_eq, ran⟩ := evaluates.of_perform_error failed
    rw [Session.eval_eq] at ran
    obtain ⟨outcome, rfl⟩ := Prod.mk.inj ran
    have executed : exec (c.run v operands) t.store = (.error fault, (exec (c.run v operands) t.store).2) :=
      Prod.ext outcome rfl
    refine ⟨receiver_eq, evaluates.vars_eq, Session.step_of_perform_error failed, ?_, ?_⟩
    · intro regular
      exact evaluates.unmoved.trans (Command.unmoved_of_failed executed regular)
    · intro values mismatches
      exact ⟨evaluates.unmoved, mismatches.consumed executed⟩
  · rintro xs sl values rfl assigns
    constructor
    · intro unwalkable
      refine evaluates.perform_of_error ?_
      rw [Session.eval_eq, Command.exec_of_slice? assigns, Value.exec_assignSlice_of_not_walkable unwalkable]
      rfl
    · intro walkable zero
      have resolved := Slice.resolve_of_step_zero zero xs.length
      rcases Value.exec_assignSlice_of_walkable walkable xs sl t.store with
        ⟨-, store, stopped, unmoved⟩ | ⟨r, items, store, selects, -, -⟩
      · refine ⟨⟨store, t.vars⟩, evaluates.unmoved.trans unmoved, evaluates.perform_of_error ?_⟩
        rw [Session.eval_eq, Command.exec_of_slice? assigns, stopped]
        rfl
      · cases resolved.symm.trans selects
  · intro fixed
    constructor
    · rintro key new rest rfl rfl
      refine evaluates.perform_of_error ?_
      cases v with
      | str _ => rfl
      | tuple _ _ => rfl
      | _ => simp [Value.kind] at fixed
    · rintro key rest rfl rfl
      refine evaluates.perform_of_error ?_
      cases v with
      | str _ => rfl
      | tuple _ _ => rfl
      | _ => simp [Value.kind] at fixed
  · intro before store fault after store' failed
    exact c.atomic_act operands (before, store) fault (after, store') failed

/-- The call that assigns the items of the iterator to a slice of the list that holds it. -/
def Box.assign (step : Int64) : Request :=
  .command (.item .set) [.var "box", .slice ⟨none, none, some step⟩, .var "walk"]

/-- Two items do not go into one place, and are lost. With a step of zero they are not even taken. -/
theorem box_assignment_fails :
    (∃ u, Box.session.perform (Box.assign 2) = (.error (.error (.sizeMismatch 2 1)), some Box.box, u) ∧
      u.vars = Box.session.vars ∧ (u.store.cursor 0).remaining = 0) ∧
    ∃ u, Box.session.perform (Box.assign 0) = (.error (.error .zeroStep), some Box.box, u) ∧
      Box.session.store.Unmoved u.store := by
  have evaluates (step : Int64) : Box.session.Evaluates
      [.var "box", .slice ⟨none, none, some step⟩, .var "walk"]
      [Box.box, .slice ⟨none, none, some step⟩, .iter 0] Box.session := rfl
  constructor
  · have failed : Box.session.perform (Box.assign 2) =
        (.error (.error (.sizeMismatch 2 1)), some Box.box, (Box.session.perform (Box.assign 2)).2.2) := rfl
    obtain ⟨-, vars, -, -, mismatch⟩ := (failed_command_leaves_no_trace (evaluates 2)).1 _ _ _ failed
    obtain ⟨-, consumed⟩ := mismatch (.iter 0) ⟨⟨_, rfl⟩, ⟨_, rfl⟩, _, _, rfl⟩
    exact ⟨_, failed, vars, consumed.exhausted 0 rfl⟩
  · obtain ⟨-, assigned, -⟩ := failed_command_leaves_no_trace (c := .item .set) (evaluates 0)
    obtain ⟨u, unmoved, failed⟩ := (assigned _ _ _ rfl rfl).2 rfl rfl
    exact ⟨u, failed, unmoved⟩

end DynamicValues
