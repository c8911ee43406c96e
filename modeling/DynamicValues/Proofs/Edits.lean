import DynamicValues.Proofs.Lookup

/-!
What the commands of a dict do to its bindings, said by equality of keys alone. An equal key keeps its place
and the key that was stored first; a new key goes to the end; the bindings that stay keep their order. Keys
stay pairwise unequal and hashes stay those of the keys, along every program.
-/

set_option autoImplicit false

namespace DynamicValues

namespace Entry

/-- A value is bound to a key: in the place of the equal key, or at the end. -/
inductive Binds (key v : Value) (es : List (Entry Value)) : List (Entry Value) → Prop
  | replace {before after : List (Entry Value)} {e : Entry Value} (among : Among key es before e after) :
      Binds key v es (before ++ ⟨e.hash, e.key, v⟩ :: after)
  | append {hash : Int64} (hashed : key.hash = .ok hash) (lacks : Lacks key es) :
      Binds key v es (es ++ [⟨hash, key, v⟩])

/-- Bindings are made one after the other. -/
inductive BindsAll : List (Entry Value) → List (Entry Value) → List (Entry Value) → Prop
  | nil (es : List (Entry Value)) : BindsAll [] es es
  | cons {f : Entry Value} {rest es fs gs : List (Entry Value)} (first : Binds f.key f.value es fs)
      (others : BindsAll rest fs gs) : BindsAll (f :: rest) es gs

end Entry

theorem Key.gives_value (key : Value) : Gives (Key.of key) fun k => k.value = key :=
  .bind (.anything _) fun _ _ => .ok rfl

namespace Dict

/-- No two keys are equal, and every hash is that of its key. -/
structure WellKeyed (d : Dict Value) : Prop where
  apart : d.entries.Pairwise fun e f => (e.key == f.key) = false ∧ (f.key == e.key) = false
  hashed : ∀ e ∈ d.entries, e.key.hash = .ok e.hash

variable {w : World} {d : Dict Value}

theorem wellKeyed_of_sound (hd : (Value.dict d).Sound w) : d.WellKeyed := ⟨keys_apart hd, hd.fits.hashed⟩

theorem binds_put (hd : (Value.dict d).Sound w) {k : Key} (hk : k.Sound w) (v : Value) :
    Entry.Binds k.value v d.entries (d.put k v).entries := by
  have scan := scans hd hk
  rcases among_or_lacks hd hk.value with ⟨before, e, after, among⟩ | lacks
  · rw [put, among.putEntry_eq scan]
    exact .replace among
  · rw [put, lacks.putEntry_eq scan]
    exact .append hk.hash lacks

theorem bindsAll_update (hd : (Value.dict d).Sound w) {other : Dict Value} (ho : (Value.dict other).Sound w) :
    Entry.BindsAll other.entries d.entries (d.update other).entries := by
  obtain ⟨-, keys, values⟩ := sound_iff.1 ho
  unfold update
  rw [List.forall_mem_map] at keys
  simp only [Items.Sound, Dict.values, List.forall_mem_map] at values
  generalize other.entries = es at keys values
  induction es generalizing d with
  | nil => exact .nil _
  | cons e es ih =>
    rw [List.forall_mem_cons] at keys values
    exact .cons (binds_put hd keys.1 e.value) (ih (sound_put hd keys.1 values.1) keys.2 values.2)

theorem gives_set_binds (hd : (Value.dict d).Sound w) {key : Value} (hk : key.Sound w) (v : Value) :
    Gives (d.set key v) fun d' => Entry.Binds key v d.entries d'.entries := by
  cases hashed : key.hash with
  | error e =>
    rw [set_eq, Key.of_bind_of_unhashable hashed]
    exact .error e
  | ok hash =>
    rw [set_of_hash hashed]
    exact .ok (binds_put (k := ⟨hash, key⟩) hd ⟨hk, hashed⟩ v)

theorem gives_delete_among (hd : (Value.dict d).Sound w) {key : Value} (hk : key.Sound w) :
    Gives (d.delete key) fun d' => ∃ before e after, Entry.Among key d.entries before e after ∧
      d' = ⟨before ++ after⟩ := by
  cases hashed : key.hash with
  | error e =>
    rw [delete_eq, Key.of_bind_of_unhashable hashed]
    exact .error e
  | ok hash =>
    have scan := scans hd (k := ⟨hash, key⟩) ⟨hk, hashed⟩
    rcases among_or_lacks hd hk with ⟨before, e, after, among⟩ | lacks
    · rw [(actsAt_of_among hashed scan among).delete, among.eraseIdx_length]
      exact .ok ⟨before, e, after, among, rfl⟩
    · rw [(misses_of_lacks hashed scan lacks).delete]
      exact .error _

theorem gives_pop_among (hd : (Value.dict d).Sound w) {key : Value} (hk : key.Sound w)
    (absent : Option Value) :
    Gives (d.pop key absent) fun r =>
      (∃ before e after, Entry.Among key d.entries before e after ∧ r.2 = ⟨before ++ after⟩) ∨
        Entry.Lacks key d.entries ∧ absent.isSome ∧ r.2 = d := by
  cases hashed : key.hash with
  | error e =>
    rw [pop_eq, Key.of_bind_of_unhashable hashed]
    exact .error e
  | ok hash =>
    have scan := scans hd (k := ⟨hash, key⟩) ⟨hk, hashed⟩
    rcases among_or_lacks hd hk with ⟨before, e, after, among⟩ | lacks
    · rw [(actsAt_of_among hashed scan among).pop, among.eraseIdx_length]
      exact .ok (.inl ⟨before, e, after, among, rfl⟩)
    · have misses := misses_of_lacks hashed scan lacks
      cases absent with
      | none =>
        rw [misses.pop]
        exact .error _
      | some v =>
        rw [misses.popD]
        exact .ok (.inr ⟨lacks, rfl, rfl⟩)

theorem gives_popFirst_split (d : Dict Value) :
    Gives d.popFirst fun r => d.entries = r.1 :: r.2.entries := by
  rw [popFirst_eq]
  cases first : d.entries.head? with
  | none => exact .error _
  | some e => exact .ok (List.cons_head?_tail first).symm

end Dict

namespace DictCommand

/-- The commands that look at a dict and leave it alone. -/
def reads : DictCommand → Bool
  | .len | .isEmpty | .get | .getOr | .contains | .keys | .values | .items | .iter | .toHost => true
  | .set | .insert | .delete | .update | .clear | .pop | .popItem => false

/-- What a command does to a dict, given its operands. -/
inductive Edits (d : Dict Value) : DictCommand → List Value → Dict Value → Prop
  | read {c : DictCommand} {operands : List Value} (reads : c.reads = true) : Edits d c operands d
  | set {key v : Value} {rest : List Value} {d' : Dict Value}
      (binds : Entry.Binds key v d.entries d'.entries) : Edits d .set (key :: v :: rest) d'
  | insert {key v : Value} {rest : List Value} {d' : Dict Value}
      (binds : Entry.Binds key v d.entries d'.entries) : Edits d .insert (key :: v :: rest) d'
  | delete {key : Value} {rest : List Value} {before after : List (Entry Value)} {e : Entry Value}
      (among : Entry.Among key d.entries before e after) : Edits d .delete (key :: rest) ⟨before ++ after⟩
  | pop {key : Value} {rest : List Value} {before after : List (Entry Value)} {e : Entry Value}
      (among : Entry.Among key d.entries before e after) : Edits d .pop (key :: rest) ⟨before ++ after⟩
  | popDefault {key absent : Value} {rest : List Value} (lacks : Entry.Lacks key d.entries) :
      Edits d .pop (key :: absent :: rest) d
  | popItem {rest : List Value} {e : Entry Value} {es : List (Entry Value)} (split : d.entries = e :: es) :
      Edits d .popItem rest ⟨es⟩
  | update {other : Dict Value} {rest : List Value} {d' : Dict Value}
      (binds : Entry.BindsAll other.entries d.entries d'.entries) : Edits d .update (.dict other :: rest) d'
  | clear {rest : List Value} : Edits d .clear rest .empty

theorem keeps_edits {w : World} (c : DictCommand) {d : Dict Value} {operands : List Value}
    (hd : (Value.dict d).Sound w) (h : Items.Sound w operands) :
    Keeps w (c.run d operands) fun _ r => Edits d c operands r.2 := by
  unfold run act
  split <;> simp only [Act.result_receiver_bind, Act.result_run_bind, Act.result_except_bind,
    Act.result_eval_bind, Act.result_edit_bind, Act.result_pure, Act.result_throw]
  · exact .pure (.read rfl)
  · exact .pure (.read rfl)
  · exact Eval.keeps_check (.anything _) fun _ _ => .pure (.read rfl)
  · exact Eval.keeps_check (.anything _) fun _ _ => .pure (.read rfl)
  · next key v _ =>
    have set := Edit.gives_result (Dict.gives_set_binds hd (h key (by simp)) v)
    exact Eval.keeps_check set fun _ binds => .pure (.set binds)
  · next key v _ =>
    refine Eval.keeps_check ((Key.gives_of (h key (by simp))).and (Key.gives_value key)) fun k hk => ?_
    obtain ⟨hk, rfl⟩ := hk
    exact .pure (.insert (Dict.binds_put hd hk v))
  · next key _ =>
    have deleted := Edit.gives_result (Dict.gives_delete_among hd (h key (by simp)))
    refine Eval.keeps_check deleted fun d' left => .pure ?_
    obtain ⟨before, e, after, among, rest⟩ := left
    rw [rest]
    exact .delete among
  · exact Eval.keeps_check (.anything _) fun _ _ => .pure (.read rfl)
  · exact .pure (.read rfl)
  · exact .pure (.read rfl)
  · refine (Eval.keeps_lift (Run.keeps_pairs fun e he => ?_)).bind fun _ _ _ _ => .pure (.read rfl)
    exact ⟨hd.part (Value.key_mem_parts he), hd.part (Value.value_mem_parts he)⟩
  · exact (Eval.keeps_lift (Run.keeps_newIter (Dict.sound_keys hd))).bind fun _ _ _ _ => .pure (.read rfl)
  · next other _ => exact .pure (.update (Dict.bindsAll_update hd (h (.dict other) (by simp))))
  · exact .pure .clear
  · next key absent _ =>
    refine Eval.keeps_check (Dict.gives_pop_among hd (h key (by simp)) (some absent)) fun r left => .pure ?_
    rcases left with ⟨before, e, after, among, rest⟩ | ⟨lacks, -, rest⟩
    · rw [rest]
      exact .pop among
    · rw [rest]
      exact .popDefault lacks
  · next key =>
    refine Eval.keeps_check (Dict.gives_pop_among hd (h key (by simp)) none) fun r left => .pure ?_
    rcases left with ⟨before, e, after, among, rest⟩ | ⟨-, given, -⟩
    · rw [rest]
      exact .pop among
    · cases given
  · refine Eval.keeps_check ((Dict.gives_popFirst hd).and (Dict.gives_popFirst_split d)) fun r hr => ?_
    obtain ⟨⟨hk, hv, -⟩, split⟩ := hr
    exact (Eval.keeps_lift (Run.keeps_newTuple (.cons hk (.cons hv .nil)))).bind fun _ _ _ _ =>
      .pure (.popItem split)
  · exact .get_bind fun _ => Eval.keeps_check (.anything _) fun _ _ => .pure (.read rfl)
  · exact .throw _

end DictCommand

/-- In every session no two keys of a dict are equal and every hash is that of its key. Every command of a
dict keeps this; it edits the bindings as `Edits` says, or fails and leaves them alone. A variable that the
dict came from holds it afterwards. -/
theorem dict_edited_in_order :
    (∀ s : Session, s.Reachable → ∀ d, s.Holds (.dict d) → d.WellKeyed) ∧
    ∀ s : Session, s.Reachable → ∀ (origin : Literal) literals d operands t,
      s.Evaluates (origin :: literals) (.dict d :: operands) t → d.WellKeyed ∧
        ∀ c outcome receiver u, s.perform (.command (.dict c) (origin :: literals)) = (outcome, receiver, u) →
          ∃ d', receiver = some (.dict d') ∧ d'.WellKeyed ∧
            (∀ reply, outcome = .ok reply → DictCommand.Edits d c operands d') ∧
            (∀ fault, outcome = .error fault → d' = d) ∧
            ∀ name, origin = .var name → u.vars.lookup name = some (.dict d') := by
  constructor
  · intro s reachable d hd
    obtain ⟨w, hs⟩ := reachable.exists_sound
    exact Dict.wellKeyed_of_sound (hs.of_holds hd)
  · intro s reachable origin literals d operands t evaluates
    obtain ⟨w, hs⟩ := reachable.exists_sound
    obtain ⟨now, leads, hoperands⟩ := evaluates.leads hs
    obtain ⟨hd, hoperands⟩ := List.forall_mem_cons.1 hoperands
    refine ⟨Dict.wellKeyed_of_sound hd, ?_⟩
    intro c outcome receiver u performed
    obtain ⟨later, -, sound⟩ := c.keeps_run hd hoperands t.store leads.store.sound
    obtain ⟨_, -, edits⟩ := c.keeps_edits hd hoperands t.store leads.store.sound
    have run := Session.eval_eq t ((Command.dict c).run (.dict d) operands)
    rw [Command.exec_dict] at run
    generalize exec (c.run d operands) t.store = executed at run sound edits
    obtain ⟨fault | ⟨reply, d'⟩, store⟩ := executed
    · rw [evaluates.perform_of_error run] at performed
      cases performed
      refine ⟨d, rfl, Dict.wellKeyed_of_sound hd, nofun, fun _ _ => rfl, ?_⟩
      rintro name rfl
      rw [evaluates.vars_eq]
      exact evaluates.lookup_eq
    · rw [evaluates.perform_of_ok run] at performed
      cases performed
      refine ⟨d', rfl, Dict.wellKeyed_of_sound (sound _ rfl).2, fun _ _ => edits _ rfl, nofun, ?_⟩
      rintro name rfl
      exact Variables.lookup_replace (evaluates.vars_eq ▸ evaluates.lookup_eq) _

/-- Setting the pair replaces the value of the equal pair, which stays the key. -/
theorem table_edited_in_order :
    Table.table.WellKeyed ∧ ∃ d', DictCommand.Edits Table.table .set [Table.pair, .none] d' ∧ d'.WellKeyed ∧
      d'.keys = [.int 1, Table.stored] ∧ d'.values = [.none, .none] := by
  obtain ⟨held, called⟩ := dict_edited_in_order
  have evaluates : Table.session.Evaluates [.var "table", .var "pair", .none]
      [.dict Table.table, Table.pair, .none] Table.session := rfl
  refine ⟨held _ Table.reachable_session _ Table.holds_table, ?_⟩
  obtain ⟨d', receiver, keyed, edits, -, -⟩ :=
    (called _ Table.reachable_session _ _ _ _ _ evaluates).2 .set _ _ _ rfl
  cases receiver
  exact ⟨_, edits _ rfl, keyed, rfl, rfl⟩

end DynamicValues
