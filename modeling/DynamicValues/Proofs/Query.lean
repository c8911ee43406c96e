import DynamicValues.Proofs.Walks
import DynamicValues.Session.Literal
import DynamicValues.Session.Query

/-!
Every query keeps the store sound and gives a sound reply. So does the evaluation of operands, in which
tuples and iterators come into being.
-/

set_option autoImplicit false

namespace DynamicValues

namespace Eval

variable {α β : Type} {w : World} {post : World → α → Prop} {post' : World → β → Prop}

theorem exec_lift (m : Run α) (s : Store) :
    exec (liftM m : Eval α) s = ((exec m s).1.mapError Fault.error, (exec m s).2) := rfl

theorem keeps_lift {m : Run α} (h : Keeps w m post) : Keeps w (liftM m : Eval α) post := by
  intro s hs
  obtain ⟨later, evolves, result⟩ := h s hs
  rw [exec_lift]
  refine ⟨later, evolves, ?_⟩
  cases outcome : (exec m s).1 with
  | error e => exact .error _
  | ok a => exact .ok (result a outcome)

theorem keeps_check {x : Except Error α} {f : α → Eval β} {p : α → Prop} (hx : Gives x p)
    (hf : ∀ a, p a → Keeps w (f a) post') : Keeps w (liftM x >>= f) post' := by
  cases x with
  | error e => exact .throw _
  | ok a => exact hf a (hx a rfl)

theorem keeps_expect {o : Option α} {f : α → Eval β} (hf : ∀ a, Keeps w (f a) post') :
    Keeps w (expect o >>= f) post' := by
  cases o with
  | none => exact .throw _
  | some a => exact hf a

end Eval

namespace Variables

/-- All variables hold sound values. -/
def Sound (w : World) (vars : Variables) : Prop := ∀ binding ∈ vars, binding.2.Sound w

theorem persists_sound : Persists Sound := persists_forall_mem fun _ _ _ grows h => h.mono grows

theorem Sound.lookup {w : World} {vars : Variables} (h : vars.Sound w) {name : String} {v : Value}
    (found : vars.lookup name = some v) : v.Sound w := by
  obtain ⟨before, after, split, -⟩ := List.lookup_eq_some_iff.1 found
  exact h (name, v) (by simp [split])

theorem Sound.replace {w : World} {vars : Variables} (h : vars.Sound w) (name : String) {v : Value}
    (hv : v.Sound w) : (vars.replace name v).Sound w := by
  induction vars with
  | nil => exact h
  | cons binding vars ih =>
    obtain ⟨first, rest⟩ := List.forall_mem_cons.1 h
    unfold Variables.replace
    split
    · exact List.forall_mem_cons.2 ⟨hv, rest⟩
    · exact List.forall_mem_cons.2 ⟨first, ih rest⟩

/-- Writing back the value that is there changes nothing. -/
theorem replace_of_lookup {vars : Variables} {name : String} {v : Value} (h : vars.lookup name = some v) :
    vars.replace name v = vars := by
  induction vars with
  | nil => rfl
  | cons binding vars ih =>
    obtain ⟨other, u⟩ := binding
    rw [List.lookup_cons] at h
    unfold Variables.replace
    cases here : name == other with
    | true =>
      rw [here] at h
      cases h
      rfl
    | false =>
      rw [here] at h
      exact congrArg ((other, u) :: ·) (ih h)

theorem lookup_replace {vars : Variables} {name : String} {u : Value} (h : vars.lookup name = some u)
    (v : Value) : (vars.replace name v).lookup name = some v := by
  induction vars with
  | nil => cases h
  | cons binding vars ih =>
    obtain ⟨other, u'⟩ := binding
    rw [List.lookup_cons] at h
    unfold Variables.replace
    cases here : name == other with
    | true =>
      rw [if_pos rfl, List.lookup_cons, here]
    | false =>
      rw [here] at h
      rw [if_neg Bool.false_ne_true, List.lookup_cons, here]
      exact ih h

end Variables

namespace Literal

variable {vars : Variables}

mutual

theorem keeps_eval {w : World} (hv : vars.Sound w) : ∀ l : Literal, Keeps w (l.eval vars) Value.Sound
  | .none => .pure (.of_scalar trivial rfl)
  | .bool _ => .pure (.of_scalar trivial rfl)
  | .int _ => .pure (.of_scalar trivial rfl)
  | .float _ => .pure (.of_scalar trivial rfl)
  | .str _ => .pure (.of_scalar trivial rfl)
  | .tuple items => (keeps_evalItems hv items).bind fun _ _ _ hxs => Eval.keeps_lift (Run.keeps_newTuple hxs)
  | .list items => (keeps_evalItems hv items).map fun _ _ _ => Value.sound_list
  | .dict bindings => (keeps_evalBindings hv bindings (Dict.sound_empty w)).map fun _ _ _ hd => hd
  | .slice _ => .pure (.of_scalar trivial rfl)
  | .iter items => (keeps_evalItems hv items).bind fun _ _ _ hxs => Eval.keeps_lift (Run.keeps_newIter hxs)
  | .var name => by
    unfold eval
    split
    · next v found => exact .pure (hv.lookup found)
    · exact .throw _

theorem keeps_evalItems {w : World} (hv : vars.Sound w) :
    ∀ ls : List Literal, Keeps w (evalItems vars ls) Items.Sound
  | [] => .pure .nil
  | l :: ls =>
    (keeps_eval hv l).bind fun _ _ grows hx =>
      (keeps_evalItems (Variables.persists_sound grows hv) ls).map fun _ _ grows' hxs =>
        .cons (hx.mono grows') hxs

theorem keeps_evalBindings {w : World} (hv : vars.Sound w) : ∀ (bindings : List (Literal × Literal))
    {d : Dict Value}, (Value.dict d).Sound w →
      Keeps w (evalBindings vars d bindings) fun later e => (Value.dict e).Sound later
  | [], _, hd => .pure hd
  | (key, value) :: rest, _, hd =>
    (keeps_eval hv key).bind fun _ _ grows hk =>
      (keeps_eval (Variables.persists_sound grows hv) value).bind fun _ _ grows' hx =>
        Eval.keeps_check (Dict.gives_set (hd.mono (grows.trans grows')) (hk.mono grows') hx) fun _ hd' =>
          keeps_evalBindings (Variables.persists_sound (grows.trans grows') hv) rest hd'

end

end Literal

/-- The value that a variable can take over, if there is one, is sound. -/
def Reply.Sound (w : World) (r : Reply Value) : Prop := ∀ v, r.value? = some v → v.Sound w

namespace Reply.Sound

variable {w : World}

theorem value {v : Value} (h : v.Sound w) : (Reply.value v).Sound w := by
  rintro _ ⟨⟩
  exact h

/-- Replies of texts, numbers and truth values. -/
theorem scalar {v : Value} (fits : v.Fits w) (scalar : v.parts = []) : (Reply.value v).Sound w :=
  value (.of_scalar fits scalar)

/-- Replies that hold no value. -/
theorem other {r : Reply Value} (h : r.value? = Option.none) : r.Sound w := by simp [Reply.Sound, h]

theorem ordering (o : Ordering) : (Reply.ordering o).Sound w := by
  cases o <;> exact scalar trivial rfl

theorem position (o : Option Nat) : (Reply.position o).Sound w := by
  cases o <;> exact scalar trivial rfl

end Reply.Sound

namespace Eval

variable {w : World}

/-- Functions that answer the value that a computation gives. -/
theorem keeps_reply {m : Run Value} (h : Keeps w m Value.Sound) :
    Keeps w (do return .value (← m) : Eval (Reply Value)) Reply.Sound :=
  (keeps_lift h).map fun _ _ _ => .value

end Eval

section Queries

variable {w : World} {operands : List Value}

theorem ValueQuery.keeps_run (q : ValueQuery) (h : Items.Sound w operands) :
    Keeps w (q.run operands) Reply.Sound := by
  unfold run
  split
  · exact .pure (.scalar trivial rfl)
  · exact .pure (.scalar trivial rfl)
  · exact Eval.keeps_check (.anything _) fun _ _ => .pure (.scalar trivial rfl)
  · exact Eval.keeps_check (.anything _) fun _ _ => .pure (.scalar trivial rfl)
  · exact .pure (.scalar trivial rfl)
  · exact .pure (.ordering _)
  · next v key _ =>
    apply Eval.keeps_reply
    exact Value.keeps_getItem (h v (by simp))
  · exact (Eval.keeps_lift (Value.keeps_contains _ _)).map fun _ _ _ _ => .scalar trivial rfl
  · next v _ =>
    apply Eval.keeps_reply
    exact Run.keeps_iter (h v (by simp))
  · exact .get_bind fun _ => .pure (.scalar trivial rfl)
  · exact .get_bind fun _ => Eval.keeps_check (.anything _) fun _ _ => .pure (.other rfl)
  · refine .get_bind fun s => ?_
    split
    · exact .pure (.scalar trivial rfl)
    · exact .throw _
  · exact .throw _

theorem SequenceQuery.keeps_run (q : SequenceQuery) {v : Value} {xs : List Value} (hv : v.Sound w)
    (hxs : Items.Sound w xs) : Keeps w (q.run v xs operands) Reply.Sound := by
  unfold run
  split
  · exact .pure (.scalar trivial rfl)
  · exact .pure (.scalar trivial rfl)
  · refine Eval.keeps_check (Sequence.gives_get _ _ _) fun x hx => .pure (.value (hxs x hx))
  · apply Eval.keeps_reply
    exact Value.keeps_getItem hv
  · apply Eval.keeps_reply
    exact Value.keeps_getItem hv
  · exact .pure (.scalar trivial rfl)
  · exact .pure (.scalar trivial rfl)
  · refine Eval.keeps_expect fun _ => Eval.keeps_check (.anything _) fun _ _ => .pure (.scalar trivial rfl)
  · exact .get_bind fun _ => Eval.keeps_check (.anything _) fun _ _ => .pure (.other rfl)
  · exact .throw _

theorem TextQuery.keeps_run (q : TextQuery) (t : Text) (h : Items.Sound w operands) :
    Keeps w (q.run t operands) Reply.Sound := by
  unfold run
  split
  · exact .pure (.scalar trivial rfl)
  · exact .pure (.scalar trivial rfl)
  · exact Eval.keeps_check (.anything _) fun _ _ => .pure (.scalar trivial rfl)
  · exact Eval.keeps_check (.anything _) fun _ _ => .pure (.scalar trivial rfl)
  · exact Eval.keeps_check (.anything _) fun _ _ => .pure (.scalar trivial rfl)
  · exact .pure (.scalar trivial rfl)
  · exact .pure (.position _)
  · exact Eval.keeps_expect fun _ => .pure (.position _)
  · exact .pure (.position _)
  · exact Eval.keeps_expect fun _ => Eval.keeps_check (.anything _) fun _ _ => .pure (.scalar trivial rfl)
  · exact Eval.keeps_expect fun _ => .pure (.scalar trivial rfl)
  · exact Eval.keeps_expect fun _ => .pure (.scalar trivial rfl)
  · exact Eval.keeps_expect fun _ => .pure (.scalar trivial rfl)
  · exact Eval.keeps_expect fun _ => .pure (.scalar trivial rfl)
  · refine Eval.keeps_expect fun _ => Eval.keeps_check (.anything _) fun fields _ => .pure (.value ?_)
    apply Value.sound_list
    rw [Items.Sound, List.forall_mem_map]
    intro field _
    exact Value.sound_str w field
  · next v _ =>
    exact (Eval.keeps_lift (Run.keeps_join t (h v (by simp)))).map fun _ _ _ _ => .scalar trivial rfl
  · exact Eval.keeps_expect fun _ => .pure (.scalar trivial rfl)
  · exact .pure (.scalar trivial rfl)
  · exact .pure (.scalar trivial rfl)
  · exact .pure (.scalar trivial rfl)
  · exact .pure (.ordering _)
  · exact .pure (.other rfl)
  · exact .throw _

theorem SliceQuery.keeps_run (q : SliceQuery) (operands : List Value) :
    Keeps w (q.run operands) Reply.Sound := by
  have bound (b : Option Int64) : (Value.ofOption b).Sound w := by
    cases b <;> exact .of_scalar trivial rfl
  unfold run
  split
  · exact .pure (.scalar trivial rfl)
  · next s _ =>
    have bounds : Items.Sound w [.ofOption s.start, .ofOption s.stop, .ofOption s.step] :=
      .cons (bound _) (.cons (bound _) (.cons (bound _) .nil))
    apply Eval.keeps_reply
    exact Run.keeps_newTuple bounds
  · exact .pure (.ordering _)
  · exact Eval.keeps_check (.anything _) fun _ _ => .pure (.other rfl)
  · exact .throw _

theorem IterQuery.keeps_run (q : IterQuery) (h : Items.Sound w operands) :
    Keeps w (q.run operands) Reply.Sound := by
  unfold run
  split
  · next i _ =>
    refine (Eval.keeps_lift (Run.keeps_next i)).bind fun _ item _ hitem => ?_
    cases item with
    | none => exact .pure (.other rfl)
    | some x => exact .pure (.value (hitem x rfl))
  · exact .get_bind fun _ => .pure (.scalar trivial rfl)
  · exact .get_bind fun _ => .pure (.scalar trivial rfl)
  · exact .get_bind fun _ => .pure (.scalar trivial rfl)
  · refine .get_bind fun s => .pure (.value (Value.sound_list ?_))
    exact .cons (Value.sound_int _ _) (.cons (Value.sound_int _ _) .nil)
  · next v _ =>
    apply Eval.keeps_reply
    exact Run.keeps_iter (h v (by simp))
  · next v _ =>
    apply Eval.keeps_reply
    exact Run.keeps_list (h v (by simp))
  · next name v _ =>
    refine Eval.keeps_expect fun f => ?_
    refine (Eval.keeps_lift (Run.keeps_observe f (h v (by simp)))).bind fun _ _ _ _ => ?_
    exact .get_bind fun _ => .pure (.other rfl)
  · exact .throw _

theorem FunctionQuery.keeps_run (q : FunctionQuery) (h : Items.Sound w operands) :
    Keeps w (q.run operands) Reply.Sound := by
  unfold run
  split
  · apply Eval.keeps_reply
    exact Run.keeps_range _ _
  · apply Eval.keeps_reply
    exact Run.keeps_range _ _
  · next v _ =>
    refine Eval.keeps_expect fun f => Eval.keeps_reply (Run.keeps_map _ ?_ (h v (by simp)))
    exact fun _ _ _ => f.keeps_apply
  · apply Eval.keeps_reply
    exact Run.keeps_lazyRange _
  · apply Eval.keeps_reply
    exact Run.keeps_zip h
  · next v _ =>
    apply Eval.keeps_reply
    exact Run.keeps_extremum .min (h v (by simp))
  · next v _ =>
    apply Eval.keeps_reply
    exact Run.keeps_extremum .max (h v (by simp))
  · next v start _ =>
    apply Eval.keeps_reply
    exact Run.keeps_sum (h v (by simp)) (h start (by simp))
  · exact Eval.keeps_check (.anything _) fun _ _ => .pure (.scalar trivial rfl)
  · exact Eval.keeps_check (.anything _) fun _ _ => .pure (.scalar trivial rfl)
  · exact .pure (.scalar trivial rfl)
  · exact .get_bind fun _ => .pure (.scalar trivial rfl)
  · next v _ =>
    apply Eval.keeps_reply
    exact Run.keeps_iter (h v (by simp))
  · next v _ =>
    apply Eval.keeps_reply
    exact Run.keeps_tuple (h v (by simp))
  · next v _ =>
    apply Eval.keeps_reply
    exact Run.keeps_list (h v (by simp))
  · next v _ =>
    apply Eval.keeps_reply
    exact Run.keeps_dict (h v (by simp))
  · next v _ =>
    apply Eval.keeps_reply
    exact Run.keeps_sorted (h v (by simp))
  · exact .throw _

theorem DictQuery.keeps_bindings {key : Value → Eval Key}
    (hkey : ∀ (now : World) (k : Value), k.Sound now → Keeps now (key k) fun later k => k.Sound later)
    (h : Items.Sound w operands) {d : Dict Value} (hd : (Value.dict d).Sound w) :
    Keeps w (bindings key d operands) fun later e => (Value.dict e).Sound later := by
  induction d, operands using bindings.induct generalizing w with
  | case1 d => exact .pure hd
  | case2 d k v rest ih =>
    simp only [Items.Sound, List.forall_mem_cons] at h
    obtain ⟨hk, hv, hrest⟩ := h
    refine (hkey w k hk).bind fun _ key grows hkey' => ?_
    exact ih key (persists_items grows hrest) (Dict.sound_put (hd.mono grows) hkey' (hv.mono grows))
  | case3 d v => exact .throw _

theorem DictQuery.keeps_run (q : DictQuery) (h : Items.Sound w operands) :
    Keeps w (q.run operands) Reply.Sound := by
  unfold run
  split
  · next pairs _ =>
    have hpairs : Items.Sound w pairs := fun x hx => (h (.list pairs) (by simp)).part hx
    refine (Eval.keeps_lift (Run.keeps_newCursor hpairs)).bind fun _ i _ _ => ?_
    exact (Eval.keeps_lift (Run.keeps_dictOf i)).map fun _ _ _ => .value
  · refine (keeps_bindings ?_ h (Dict.sound_empty w)).map fun _ _ _ => .value
    intro now k hk
    exact Eval.keeps_lift (.liftExcept (Key.gives_of hk))
  · refine (keeps_bindings ?_ h (Dict.sound_empty w)).map fun _ _ _ => .value
    intro now k _
    cases k with
    | str t => exact .pure (Key.sound_ofText now t)
    | _ => exact .throw _
  · refine Eval.keeps_check (.anything _) fun _ _ => Eval.keeps_check (.anything _) fun _ _ => ?_
    exact .pure (.scalar trivial rfl)
  · next v _ =>
    refine Eval.keeps_check (Key.gives_of (h v (by simp))) fun k hk => .pure (.value ?_)
    exact Value.sound_list (.cons hk.value (.cons hk.value .nil))
  · exact .throw _

theorem HashQuery.keeps_run (q : HashQuery) (operands : List Value) :
    Keeps w (q.run operands) Reply.Sound := by
  unfold run
  split
  · exact .pure (.scalar trivial rfl)
  · exact .pure (.scalar trivial rfl)
  · exact .pure (.scalar trivial rfl)
  · exact .pure (.scalar trivial rfl)
  · exact Eval.keeps_check (.anything _) fun _ _ => .pure (.scalar trivial rfl)
  · exact .throw _

theorem Query.keeps_run (q : Query) (h : Items.Sound w operands) :
    Keeps w (q.run operands) Reply.Sound := by
  cases q with
  | identity =>
    cases operands with
    | nil => exact .throw _
    | cons v rest => exact .pure (.value (h v (by simp)))
  | value q => exact q.keeps_run h
  | sequence q =>
    unfold run
    dsimp only
    split
    · next i xs rest =>
      have hv := h (.tuple i xs) (by simp)
      exact q.keeps_run hv fun x hx => hv.part hx
    · next xs rest =>
      have hv := h (.list xs) (by simp)
      exact q.keeps_run hv fun x hx => hv.part hx
    · exact .throw _
  | text q =>
    unfold run
    dsimp only
    split
    · next t rest => exact q.keeps_run t (List.forall_mem_cons.1 h).2
    · exact .throw _
  | slice q => exact q.keeps_run operands
  | iter q => exact q.keeps_run h
  | dict q => exact q.keeps_run h
  | function q => exact q.keeps_run h
  | hash q => exact q.keeps_run operands

end Queries
end DynamicValues
