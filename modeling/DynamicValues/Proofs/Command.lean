import DynamicValues.Proofs.Query

/-!
Commands as computations that give the receiver which a success leaves. They keep the store sound, and the
receiver with it.
-/

set_option autoImplicit false

namespace DynamicValues

section Commands

/-- The reply of a command and the receiver that it leaves, if it succeeds. -/
def ItemCommand.run (c : ItemCommand) (v : Value) (operands : List Value) : Eval (Reply Value × Value) :=
  (c.act operands).result v

@[inherit_doc ItemCommand.run]
def ListCommand.run (c : ListCommand) (xs operands : List Value) : Eval (Reply Value × List Value) :=
  (c.act operands).result xs

@[inherit_doc ItemCommand.run]
def DictCommand.run (c : DictCommand) (d : Dict Value) (operands : List Value) :
    Eval (Reply Value × Dict Value) :=
  (c.act operands).result d

@[inherit_doc ItemCommand.run]
def Command.run (c : Command) (v : Value) (operands : List Value) : Eval (Reply Value × Value) :=
  (c.act operands).result v

variable {w : World} {operands : List Value}

theorem ItemCommand.keeps_run (c : ItemCommand) {v : Value} (hv : v.Sound w) (h : Items.Sound w operands) :
    Keeps w (c.run v operands) fun later r => r.1.Sound later ∧ r.2.Sound later := by
  unfold run act
  split
  · next key new _ =>
    have set := ItemEdit.keeps_set hv (h key (by simp)) (h new (by simp))
    simp only [Act.result_act_bind, Act.result_pure]
    exact (Eval.keeps_lift (Act.keeps_result set)).bind fun _ _ _ hu => .pure ⟨.scalar trivial rfl, hu⟩
  · simp only [Act.result_act_bind, Act.result_pure]
    exact (Eval.keeps_lift (Act.keeps_result (ItemEdit.keeps_delete hv))).bind fun _ _ _ hu =>
      .pure ⟨.scalar trivial rfl, hu⟩
  · exact .throw _

theorem ListCommand.keeps_run (c : ListCommand) {xs : List Value} (hxs : Items.Sound w xs)
    (h : Items.Sound w operands) :
    Keeps w (c.run xs operands) fun later r => r.1.Sound later ∧ Items.Sound later r.2 := by
  have silent {m : Edit (List Value) Unit} (hx : Gives (m.on xs) (Items.Sound w)) :
      Keeps w (do let r ← m.result xs; return (Reply.none, r.2) : Eval (Reply Value × List Value)) fun later r =>
        r.1.Sound later ∧ Items.Sound later r.2 :=
    Eval.keeps_check (Edit.gives_result hx) fun _ hys => .pure ⟨.scalar trivial rfl, hys⟩
  unfold run act
  split <;> simp only [Act.result_run_bind, Act.result_edit_bind, Act.result_act_bind, Act.result_pure,
    Act.result_throw]
  · next v _ => exact silent (.ok (hxs.append (.cons (h v (by simp)) .nil)))
  · next v _ =>
    refine (Eval.keeps_lift (Run.keeps_itemsOf (h v (by simp)))).bind fun _ _ grows hys => ?_
    exact .pure ⟨.scalar trivial rfl, (persists_items grows hxs).append hys⟩
  · next i v _ => exact silent (.ok (Items.sound_insert hxs (h v (by simp)) i))
  · exact silent (Items.gives_remove hxs _)
  · exact Eval.keeps_check (Items.gives_pop hxs) fun _ hr => .pure ⟨.value hr.1, hr.2⟩
  · exact Eval.keeps_check (Items.gives_popAt hxs _) fun _ hr => .pure ⟨.value hr.1, hr.2⟩
  · exact silent (.ok (Items.sound_sort hxs))
  · exact silent (.ok (hxs.subset (by simp)))
  · next i v _ => exact silent (Items.gives_set hxs (h v (by simp)) i)
  · exact silent (Items.gives_delete hxs _)
  · next s v _ =>
    have assigned := Value.keeps_assignSlice (s := s) hxs (h v (by simp))
    exact (Eval.keeps_lift (Act.keeps_result assigned)).bind fun _ _ _ hys => .pure ⟨.scalar trivial rfl, hys⟩
  · exact silent (Items.gives_deleteSlice hxs _)
  · exact .throw _

theorem ListCommand.run_extend (xs : List Value) (v : Value) :
    extend.run xs [v] = do return (.none, xs ++ (← Run.itemsOf v)) :=
  Act.result_run_bind xs (Run.itemsOf v) _

theorem DictCommand.keeps_run (c : DictCommand) {d : Dict Value} (hd : (Value.dict d).Sound w)
    (h : Items.Sound w operands) :
    Keeps w (c.run d operands) fun later r => r.1.Sound later ∧ (Value.dict r.2).Sound later := by
  have silent {m : Edit (Dict Value) Unit} (hx : Gives (m.on d) fun e => (Value.dict e).Sound w) :
      Keeps w (do let r ← m.result d; return (Reply.none, r.2) : Eval (Reply Value × Dict Value)) fun later r =>
        r.1.Sound later ∧ (Value.dict r.2).Sound later :=
    Eval.keeps_check (Edit.gives_result hx) fun _ he => .pure ⟨.scalar trivial rfl, he⟩
  unfold run act
  split <;> simp only [Act.result_receiver_bind, Act.result_run_bind, Act.result_except_bind,
    Act.result_eval_bind, Act.result_edit_bind, Act.result_pure, Act.result_throw]
  · exact .pure ⟨.scalar trivial rfl, hd⟩
  · exact .pure ⟨.scalar trivial rfl, hd⟩
  · exact Eval.keeps_check (Dict.gives_get hd) fun _ hv => .pure ⟨.value hv, hd⟩
  · next key absent _ =>
    exact Eval.keeps_check (Dict.gives_getD hd (h absent (by simp))) fun _ hv => .pure ⟨.value hv, hd⟩
  · next key v _ => exact silent (Dict.gives_set hd (h key (by simp)) (h v (by simp)))
  · next key v _ =>
    refine Eval.keeps_check (Key.gives_of (h key (by simp))) fun k hk => ?_
    refine .pure ⟨?_, Dict.sound_put hd hk (h v (by simp))⟩
    change Reply.Sound w ((d.find? k).elim .absent .value)
    cases found : d.find? k with
    | none => exact .other rfl
    | some old => exact .value (Dict.sound_of_find? hd found)
  · exact silent (Dict.gives_delete hd)
  · exact Eval.keeps_check (.anything _) fun _ _ => .pure ⟨.scalar trivial rfl, hd⟩
  · exact .pure ⟨.value (Value.sound_list (Dict.sound_keys hd)), hd⟩
  · exact .pure ⟨.value (Value.sound_list (Dict.sound_iff.1 hd).2.2), hd⟩
  · refine (Eval.keeps_lift (Run.keeps_pairs fun e he => ?_)).bind fun _ _ grows hps => .pure ?_
    · exact ⟨hd.part (Value.key_mem_parts he), hd.part (Value.value_mem_parts he)⟩
    · exact ⟨.value (Value.sound_list hps), hd.mono grows⟩
  · refine (Eval.keeps_lift (Run.keeps_newIter (Dict.sound_keys hd))).bind fun _ _ grows hi => ?_
    exact .pure ⟨.value hi, hd.mono grows⟩
  · next other _ => exact silent (.ok (Dict.sound_update hd (h (.dict other) (by simp))))
  · exact silent (.ok (Dict.sound_empty w))
  · next key absent _ =>
    refine Eval.keeps_check (Dict.gives_pop hd ?_) fun _ hr => .pure ⟨.value hr.1, hr.2⟩
    rintro _ ⟨⟩
    exact h absent (by simp)
  · exact Eval.keeps_check (Dict.gives_pop hd (by simp)) fun _ hr => .pure ⟨.value hr.1, hr.2⟩
  · refine Eval.keeps_check (Dict.gives_popFirst hd) fun r hr => ?_
    obtain ⟨hk, hv, he⟩ := hr
    refine (Eval.keeps_lift (Run.keeps_newTuple (.cons hk (.cons hv .nil)))).bind fun _ _ grows ht => ?_
    exact .pure ⟨.value ht, he.mono grows⟩
  · exact .get_bind fun _ => Eval.keeps_check (.anything _) fun _ _ => .pure ⟨.other rfl, hd⟩
  · exact .throw _

theorem Command.run_list (c : ListCommand) (xs operands : List Value) :
    (Command.list c).run (.list xs) operands = (do
      let r ← c.run xs operands
      return (r.1, .list r.2)) :=
  Act.result_within (Value.list xs) xs Value.list (c.act operands)

theorem Command.run_dict (c : DictCommand) (d : Dict Value) (operands : List Value) :
    (Command.dict c).run (.dict d) operands = (do
      let r ← c.run d operands
      return (r.1, .dict r.2)) :=
  Act.result_within (Value.dict d) d Value.dict (c.act operands)

theorem Command.run_list_of_ne (c : ListCommand) {v : Value} (other : v.kind ≠ .list) :
    (Command.list c).run v operands = throw (.error (.immutable v.kind)) := by
  cases v with
  | list xs => exact absurd rfl other
  | _ => rfl

theorem Command.run_dict_of_ne (c : DictCommand) {v : Value} (other : v.kind ≠ .dict) :
    (Command.dict c).run v operands = throw (.error (.immutable v.kind)) := by
  cases v with
  | dict d => exact absurd rfl other
  | _ => rfl

theorem Command.keeps_run (c : Command) {v : Value} (hv : v.Sound w) (h : Items.Sound w operands) :
    Keeps w (c.run v operands) fun later r => r.1.Sound later ∧ r.2.Sound later := by
  cases c with
  | item c => exact c.keeps_run hv h
  | list c =>
    by_cases kind : v.kind = .list
    · cases v with
      | list xs =>
        rw [run_list]
        refine (c.keeps_run (fun x hx => hv.part hx) h).bind fun _ _ _ hr => .pure ?_
        exact ⟨hr.1, Value.sound_list hr.2⟩
      | _ => cases kind
    · rw [run_list_of_ne c kind]
      exact .throw _
  | dict c =>
    by_cases kind : v.kind = .dict
    · cases v with
      | dict d =>
        rw [run_dict]
        exact (c.keeps_run hv h).bind fun _ _ _ hr => .pure hr
      | _ => cases kind
    · rw [run_dict_of_ne c kind]
      exact .throw _

/-- Commands of dicts act on a dict as on its bindings. -/
theorem Command.exec_dict (c : DictCommand) (d : Dict Value) (operands : List Value) (s : Store) :
    exec ((Command.dict c).run (.dict d) operands) s =
      ((exec (c.run d operands) s).1.map fun r => (r.1, .dict r.2), (exec (c.run d operands) s).2) := by
  rw [run_dict, exec_bind]
  rcases exec (c.run d operands) s with ⟨e | ⟨reply, d'⟩, t⟩ <;> rfl

end Commands
end DynamicValues
