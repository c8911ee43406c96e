import DynamicValues.Proofs.Act
import DynamicValues.Proofs.Items

/-!
A command that fails leaves its receiver as it was. Most changes make all their checks before they write. Some
write first, and find out only then that there was nothing to take away; what they wrote is what stood there.
-/

set_option autoImplicit false

namespace DynamicValues

section Rules

variable {ε σ τ α β : Type}

/-- If the computation fails, the states before and after it are related. -/
def FailsWith (rel : σ → σ → Prop) (m : ExceptT ε (StateM σ) α) : Prop :=
  ∀ s e t, exec m s = (.error e, t) → rel s t

section Related

variable {rel : σ → σ → Prop} {m : ExceptT ε (StateM σ) α} {f : α → ExceptT ε (StateM σ) β}

variable (rel) in
theorem related_bind (trans : ∀ {a b c}, rel a b → rel b c → rel a c) (hm : ∀ s, rel s (exec m s).2)
    (hf : ∀ a s, rel s (exec (f a) s).2) (s : σ) : rel s (exec (m >>= f) s).2 := by
  have first := hm s
  rw [exec_bind]
  generalize exec m s = executed at first ⊢
  obtain ⟨e | a, t⟩ := executed
  · exact first
  · exact trans first (hf a t)

namespace FailsWith

theorem of_all (h : ∀ s, rel s (exec m s).2) : FailsWith rel m := by
  intro s e t failed
  have related := h s
  rwa [failed] at related

/-- What comes first has to keep to the relation however it ends. -/
theorem bind (trans : ∀ {a b c}, rel a b → rel b c → rel a c) (hm : ∀ s, rel s (exec m s).2)
    (hf : ∀ a, FailsWith rel (f a)) : FailsWith rel (m >>= f) := by
  intro s e u failed
  have first := hm s
  rw [exec_bind] at failed
  generalize exec m s = executed at first failed
  obtain ⟨e' | a, t⟩ := executed
  · cases failed
    exact first
  · exact trans first (hf a t e u failed)

/-- What comes last may do anything, if it cannot fail. -/
theorem andThen (hm : FailsWith rel m) (hf : ∀ a s, ∃ b t, exec (f a) s = (.ok b, t)) :
    FailsWith rel (m >>= f) := by
  intro s e u failed
  have first := hm s
  rw [exec_bind] at failed
  generalize exec m s = executed at first failed
  obtain ⟨e' | a, t⟩ := executed
  · cases failed
    exact first _ _ rfl
  · obtain ⟨b, v, done⟩ := hf a t
    cases done.symm.trans failed

end FailsWith
end Related

/-- The computation leaves this part of the state alone. -/
def Spares (part : σ → τ) (m : ExceptT ε (StateM σ) α) : Prop := ∀ s, part (exec m s).2 = part s

/-- If the computation fails, it leaves this part of the state as it was. -/
def Atomic (part : σ → τ) (m : ExceptT ε (StateM σ) α) : Prop := FailsWith (fun s t => part t = part s) m

variable {part : σ → τ} {m : ExceptT ε (StateM σ) α} {f : α → ExceptT ε (StateM σ) β}

namespace Spares

@[simp] theorem pure (a : α) : Spares part (pure a : ExceptT ε (StateM σ) α) := fun _ => rfl

@[simp] theorem throw (e : ε) : Spares part (throw e : ExceptT ε (StateM σ) α) := fun _ => rfl

@[simp] theorem get : Spares part (get : ExceptT ε (StateM σ) σ) := fun _ => rfl

@[simp] theorem check (x : Except ε α) : Spares part (liftM x : ExceptT ε (StateM σ) α) := fun _ => rfl

@[simp] theorem bind (hm : Spares part m) (hf : ∀ a, Spares part (f a)) : Spares part (m >>= f) :=
  related_bind (fun s t => part t = part s) (fun ab bc => bc.trans ab) hm hf

@[simp] theorem map (hm : Spares part m) (g : α → β) : Spares part (g <$> m) := by
  rw [map_eq_pure_bind]
  exact hm.bind fun _ => .pure _

theorem atomic (h : Spares part m) : Atomic part m := FailsWith.of_all h

end Spares

namespace Atomic

theorem bind (hm : Spares part m) (hf : ∀ a, Atomic part (f a)) : Atomic part (m >>= f) :=
  FailsWith.bind (fun ab bc => bc.trans ab) hm hf

theorem modifyGet (g : σ → α × σ) : Atomic part (modifyGet g : ExceptT ε (StateM σ) α) := by
  intro s e t failed
  cases failed

end Atomic
end Rules

namespace Edit

variable {ρ α : Type}

theorem exec_orFail (g : ρ → Option α × ρ) (e : Error) (r : ρ) :
    exec (orFail (modifyGet g : Edit ρ (Option α)) e) r = ((g r).1.elim (.error e) .ok, (g r).2) := by
  have first : exec (modifyGet g : Edit ρ (Option α)) r = (.ok (g r).1, (g r).2) := rfl
  rw [orFail, exec_bind, first]
  cases (g r).1 <;> rfl

/-- A change that takes away nothing is no change. -/
theorem atomic_orFail {g : ρ → Option α × ρ} (h : ∀ r, (g r).1 = none → (g r).2 = r) (e : Error) :
    Atomic id (orFail (modifyGet g : Edit ρ (Option α)) e) := by
  intro r e' t failed
  rw [exec_orFail] at failed
  obtain ⟨outcome, rfl⟩ := Prod.mk.inj failed
  cases taken : (g r).1 with
  | none => exact h r taken
  | some a =>
    rw [taken] at outcome
    cases outcome

end Edit

namespace ListEdit

theorem atomic_set (i : Int64) (v : Value) : Atomic id (set i v) :=
  .bind .get fun _ => .bind (.check _) fun _ => .modifyGet _

theorem atomic_delete (i : Int64) : Atomic id (delete i) :=
  .bind .get fun _ => .bind (.check _) fun _ => .modifyGet _

theorem atomic_remove (v : Value) : Atomic id (remove v) := by
  refine .bind .get fun xs => ?_
  split
  · exact .modifyGet _
  · exact (Spares.throw _).atomic

/-- The last item is taken off before it is known whether there is one. -/
theorem atomic_pop : Atomic id pop := by
  refine Edit.atomic_orFail (fun xs none => ?_) _
  rw [List.getLast?_eq_none_iff.1 none]
  rfl

theorem atomic_popAt (i : Int64) : Atomic id (popAt i) := by
  refine .bind .get fun xs => ?_
  split
  · exact (Spares.throw _).atomic
  refine .bind .get fun _ => .bind (.check _) fun p => Edit.atomic_orFail (fun ys none => ?_) _
  exact List.eraseIdx_of_length_le (List.getElem?_eq_none_iff.1 none)

/-- The values are counted before the first one is written. -/
theorem atomic_assign (r : Indices) (values : List Value) : Atomic id (assign r values) := by
  unfold assign
  split
  · exact .modifyGet _
  split
  · exact (Spares.throw _).atomic
  · intro xs e t failed
    cases (run_write _ xs).symm.trans failed

theorem atomic_deleteSlice (s : Slice) : Atomic id (deleteSlice s) := by
  refine .bind .get fun xs => .bind (.check _) fun r => ?_
  split <;> exact .modifyGet _

theorem atomic_deleteItem (key : Value) : Atomic id (deleteItem key) := by
  unfold deleteItem
  split
  · exact atomic_deleteSlice _
  · exact .bind (.check _) fun i => atomic_delete i

end ListEdit

namespace DictEdit

theorem atomic_set (key v : Value) : Atomic id (set key v) := by
  refine .bind (.check _) fun k => ?_
  intro d e t failed
  cases failed

/-- The entry is taken out before it is known whether there is one. -/
theorem atomic_delete (key : Value) : Atomic id (delete key) := by
  refine .bind (.check _) fun k => ?_
  change Atomic id (Edit.orFail (modifyGet fun d : Dict Value => ((d.find? k).map fun _ => (), d.erase k)) _)
  refine Edit.atomic_orFail (fun d none => ?_) _
  exact Dict.erase_of_find?_eq_none (Option.map_eq_none_iff.1 none)

theorem atomic_pop (key : Value) (absent : Option Value) : Atomic id (pop key absent) := by
  refine .bind (.check _) fun k => ?_
  change Atomic id (Edit.orFail (modifyGet fun d : Dict Value => ((d.find? k).or absent, d.erase k)) _)
  refine Edit.atomic_orFail (fun d none => ?_) _
  exact Dict.erase_of_find?_eq_none (Option.or_eq_none_iff.1 none).1

theorem atomic_popFirst : Atomic id popFirst := by
  refine Edit.atomic_orFail (fun d none => ?_) _
  have empty : d.entries = [] := List.head?_eq_none_iff.1 none
  cases d
  cases empty
  rfl

end DictEdit

namespace Act

variable {ε ρ τ α β : Type}

@[simp] theorem spares_receiver : Spares Prod.fst (receiver : Act ε ρ ρ) := fun _ => rfl

@[simp] theorem spares_aside (m : ExceptT ε (StateM Store) α) : Spares Prod.fst (liftM m : Act ε ρ α) :=
  fun _ => rfl

@[simp] theorem spares_run (m : Run α) : Spares Prod.fst (liftM m : Act Fault ρ α) := fun _ => rfl

@[simp] theorem spares_except (x : Except Error α) : Spares Prod.fst (liftM x : Act Fault ρ α) := fun _ => rfl

theorem atomic_edit {m : Edit ρ α} (h : Atomic id m) : Atomic Prod.fst (liftM m : Act Error ρ α) := by
  rintro ⟨r, s⟩ e t failed
  have ran : exec (liftM m : Act Error ρ α) (r, s) = ((exec m r).1, (exec m r).2, s) := rfl
  rw [ran] at failed
  obtain ⟨outcome, rfl⟩ := Prod.mk.inj failed
  exact h r e _ (Prod.ext outcome rfl)

theorem atomic_lift {m : Act Error ρ α} (h : Atomic Prod.fst m) :
    Atomic Prod.fst (liftM m : Act Fault ρ α) := by
  intro state fault t failed
  have ran : exec (liftM m : Act Fault ρ α) state = ((exec m state).1.mapError .error, (exec m state).2) := rfl
  rw [ran] at failed
  obtain ⟨outcome, rfl⟩ := Prod.mk.inj failed
  cases failure : (exec m state).1 with
  | error e => exact h state e _ (Prod.ext failure rfl)
  | ok a =>
    rw [failure] at outcome
    cases outcome

theorem atomic_receiver_bind {f : ρ → Act ε ρ α}
    (h : ∀ r s e t, exec (f r) (r, s) = (.error e, t) → t.1 = r) : Atomic Prod.fst (receiver >>= f) :=
  fun state e t failed => h state.1 state.2 e t failed

theorem atomic_within {m : Act ε τ α} (h : Atomic Prod.fst m) {inner : τ} {wrap : τ → ρ} {s : Store} {e : ε}
    {t : ρ × Store} (failed : exec (within inner wrap m) (wrap inner, s) = (.error e, t)) : t.1 = wrap inner := by
  have ran : exec (within inner wrap m) (wrap inner, s) =
      ((exec m (inner, s)).1, wrap (exec m (inner, s)).2.1, (exec m (inner, s)).2.2) := rfl
  rw [ran] at failed
  obtain ⟨outcome, rfl⟩ := Prod.mk.inj failed
  exact congrArg wrap (h (inner, s) e _ (Prod.ext outcome rfl))

end Act

/-- The items are counted after they were taken, but before the list is written. -/
theorem ListEdit.atomic_setSlice (s : Slice) (values : Value) : Atomic Prod.fst (setSlice s values) :=
  .bind (Act.spares_aside _) fun _ => .bind Act.spares_receiver fun _ => .bind (.check _) fun r =>
    .bind (Act.spares_aside _) fun items => Act.atomic_edit (atomic_assign r items)

theorem ListEdit.atomic_setItem (key new : Value) : Atomic Prod.fst (setItem key new) := by
  unfold setItem
  split
  · exact atomic_setSlice _ new
  · exact .bind (.check _) fun i => Act.atomic_edit (atomic_set i new)

theorem ItemEdit.atomic_set (key new : Value) : Atomic Prod.fst (set key new) := by
  refine Act.atomic_receiver_bind fun v s e t failed => ?_
  cases v with
  | list xs => exact Act.atomic_within (ListEdit.atomic_setItem key new) failed
  | dict d => exact Act.atomic_within (Act.atomic_edit (DictEdit.atomic_set key new)) failed
  | _ =>
    cases failed
    rfl

theorem ItemEdit.atomic_delete (key : Value) : Atomic Prod.fst (delete key) := by
  refine Act.atomic_receiver_bind fun v s e t failed => ?_
  cases v with
  | list xs => exact Act.atomic_within (Act.atomic_edit (ListEdit.atomic_deleteItem key)) failed
  | dict d => exact Act.atomic_within (Act.atomic_edit (DictEdit.atomic_delete key)) failed
  | _ =>
    cases failed
    rfl

section Commands

variable {ρ α : Type} (operands : List Value)

/-- Commands that change their receiver and then answer. -/
theorem Act.atomic_answer {m : Edit ρ α} (h : Atomic id m) (f : α → Reply Value) :
    Atomic Prod.fst (do return f (← m) : Act Fault ρ (Reply Value)) :=
  .andThen (Act.atomic_lift (Act.atomic_edit h)) fun a s => ⟨f a, s, rfl⟩

theorem ItemCommand.atomic_act (c : ItemCommand) : Atomic Prod.fst (c.act operands) := by
  unfold act
  split
  · exact .andThen (Act.atomic_lift (ItemEdit.atomic_set _ _)) fun _ s => ⟨_, s, rfl⟩
  · exact .andThen (Act.atomic_lift (ItemEdit.atomic_delete _)) fun _ s => ⟨_, s, rfl⟩
  · exact (Spares.throw _).atomic

theorem ListCommand.atomic_act (c : ListCommand) : Atomic Prod.fst (c.act operands) := by
  unfold act
  split
  · exact Act.atomic_answer (.modifyGet _) _
  · exact .bind (Act.spares_run _) fun items => Act.atomic_answer (.modifyGet _) _
  · exact Act.atomic_answer (.modifyGet _) _
  · exact Act.atomic_answer (ListEdit.atomic_remove _) _
  · exact Act.atomic_answer ListEdit.atomic_pop _
  · exact Act.atomic_answer (ListEdit.atomic_popAt _) _
  · exact Act.atomic_answer (.modifyGet _) _
  · exact Act.atomic_answer (.modifyGet _) _
  · exact Act.atomic_answer (ListEdit.atomic_set _ _) _
  · exact Act.atomic_answer (ListEdit.atomic_delete _) _
  · exact .andThen (Act.atomic_lift (ListEdit.atomic_setSlice _ _)) fun _ s => ⟨_, s, rfl⟩
  · exact Act.atomic_answer (ListEdit.atomic_deleteSlice _) _
  · exact (Spares.throw _).atomic

theorem DictCommand.atomic_act (c : DictCommand) : Atomic Prod.fst (c.act operands) := by
  unfold act
  split
  · exact Spares.atomic (by simp)
  · exact Spares.atomic (by simp)
  · exact Spares.atomic (by simp)
  · exact Spares.atomic (by simp)
  · exact Act.atomic_answer (DictEdit.atomic_set _ _) _
  · exact .bind (Act.spares_except _) fun k => Act.atomic_answer (.modifyGet _) _
  · exact Act.atomic_answer (DictEdit.atomic_delete _) _
  · exact Spares.atomic (by simp)
  · exact Spares.atomic (by simp)
  · exact Spares.atomic (by simp)
  · exact Spares.atomic (by simp)
  · exact Spares.atomic (by simp)
  · exact Act.atomic_answer (.modifyGet _) _
  · exact Act.atomic_answer (.modifyGet _) _
  · exact Act.atomic_answer (DictEdit.atomic_pop _ _) _
  · exact Act.atomic_answer (DictEdit.atomic_pop _ _) _
  · exact .andThen (Act.atomic_lift (Act.atomic_edit DictEdit.atomic_popFirst)) fun e s => ⟨_, _, rfl⟩
  · exact .bind Act.spares_receiver fun _ => .bind (Act.spares_aside _) fun _ => Spares.atomic (by simp)
  · exact (Spares.throw _).atomic

theorem Command.atomic_act (c : Command) : Atomic Prod.fst (c.act operands) := by
  cases c with
  | item c => exact c.atomic_act operands
  | list c =>
    refine Act.atomic_receiver_bind fun v s e t failed => ?_
    cases v with
    | list xs => exact Act.atomic_within (c.atomic_act operands) failed
    | _ =>
      cases failed
      rfl
  | dict c =>
    refine Act.atomic_receiver_bind fun v s e t failed => ?_
    cases v with
    | dict d => exact Act.atomic_within (c.atomic_act operands) failed
    | _ =>
      cases failed
      rfl

end Commands
end DynamicValues
