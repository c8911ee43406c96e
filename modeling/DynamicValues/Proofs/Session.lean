import DynamicValues.Proofs.Atomic
import DynamicValues.Proofs.Command
import DynamicValues.Session.Program

/-!
Sessions stay sound. Every command gives a sound receiver back, or the old one if it fails, so each step of a
program leads from a sound session to one that is sound in a later world, and so does the whole program. All
values that a session holds are then sound in one world.
-/

set_option autoImplicit false

namespace DynamicValues

namespace Session

structure Sound (w : World) (s : Session) : Prop where
  store : s.store.Sound w
  vars : s.vars.Sound w

/-- From a session to a later one, with the worlds in which they are sound. -/
structure Leads (w : World) (s : Session) (later : World) (t : Session) : Prop where
  store : Evolves w s.store later t.store
  vars : t.vars.Sound later

variable {w : World} {s : Session}

namespace Leads

variable {w₁ w₂ w₃ : World} {s₁ s₂ s₃ : Session}

theorem refl (h : s.Sound w) : Leads w s w s := ⟨.refl h.store, h.vars⟩

theorem sound (h : Leads w₁ s₁ w₂ s₂) : s₂.Sound w₂ := ⟨h.store.sound, h.vars⟩

theorem trans (h₁ : Leads w₁ s₁ w₂ s₂) (h₂ : Leads w₂ s₂ w₃ s₃) : Leads w₁ s₁ w₃ s₃ :=
  ⟨h₁.store.trans h₂.store, h₂.vars⟩

theorem assign (h : Leads w₁ s₁ w₂ s₂) (name : String) {v : Value} (hv : v.Sound w₂) :
    Leads w₁ s₁ w₂ (s₂.assign name v) :=
  ⟨h.store, List.forall_mem_cons.2 ⟨hv, h.vars⟩⟩

theorem putBack (h : Leads w₁ s₁ w₂ s₂) {v : Value} (hv : v.Sound w₂) (origin : Literal) :
    Leads w₁ s₁ w₂ (s₂.putBack v origin) := by
  cases origin with
  | var name => exact ⟨h.store, h.vars.replace name hv⟩
  | _ => exact h

theorem take (h : Leads w₁ s₁ w₂ s₂) (target : Option String) {outcome : Except Fault (Reply Value)}
    (ho : Gives outcome (Reply.Sound w₂)) : Leads w₁ s₁ w₂ (s₂.take target outcome) := by
  unfold Session.take
  split
  · next name reply =>
    cases taken : reply.value? with
    | none => exact h
    | some v => exact h.assign name (ho reply rfl v taken)
  · exact h

end Leads

theorem eval_eq {α : Type} (s : Session) (m : Eval α) :
    s.eval m = ((exec m s.store).1, ⟨(exec m s.store).2, s.vars⟩) := rfl

theorem leads_eval {α : Type} {m : Eval α} {post : World → α → Prop} (hm : Keeps w m post) (hs : s.Sound w) :
    ∃ later, Leads w s later (s.eval m).2 ∧ Gives (s.eval m).1 (post later) := by
  obtain ⟨later, evolves, result⟩ := hm s.store hs.store
  exact ⟨later, ⟨evolves, Variables.persists_sound evolves.grows hs.vars⟩, result⟩

/-- The operands of a call have these values, and evaluating them leads to the session `t`. -/
def Evaluates (s : Session) (literals : List Literal) (operands : List Value) (t : Session) : Prop :=
  s.eval (Literal.evalItems s.vars literals) = (.ok operands, t)

namespace Evaluates

variable {t u : Session} {literals : List Literal} {operands : List Value}

theorem vars_eq (h : s.Evaluates literals operands t) : t.vars = s.vars :=
  congrArg (fun r => r.2.vars) h.symm

theorem exec_eq (h : s.Evaluates literals operands t) :
    exec (Literal.evalItems s.vars literals) s.store = (.ok operands, t.store) :=
  congrArg (fun r => (r.1, r.2.store)) h

theorem leads (h : s.Evaluates literals operands t) (hs : s.Sound w) :
    ∃ later, Leads w s later t ∧ Items.Sound later operands := by
  obtain ⟨later, leads, result⟩ := leads_eval (Literal.keeps_evalItems hs.vars literals) hs
  rw [h] at leads result
  exact ⟨later, leads, result operands rfl⟩

theorem perform_query (h : s.Evaluates literals operands t) (q : Query) :
    s.perform (.query q literals) = ((t.eval (q.run operands)).1, none, (t.eval (q.run operands)).2) := by
  have run : exec (do q.run (← Literal.evalItems s.vars literals)) s.store = exec (q.run operands) t.store := by
    rw [exec_bind, h.exec_eq]
  rw [perform, eval_eq, eval_eq, run, h.vars_eq]

variable {c : Command} {origin : Literal} {v : Value}

theorem lookup_eq {name : String} (h : s.Evaluates (.var name :: literals) (v :: operands) t) :
    s.vars.lookup name = some v := by
  have outcome := congrArg Prod.fst h
  rw [eval_eq, Literal.evalItems, exec_bind, Literal.eval] at outcome
  cases found : s.vars.lookup name with
  | none =>
    rw [found] at outcome
    cases outcome
  | some u =>
    rw [found] at outcome
    change (exec (Literal.evalItems s.vars literals >>= fun xs => pure (u :: xs)) s.store).1 = _ at outcome
    rw [exec_bind] at outcome
    generalize exec (Literal.evalItems s.vars literals) s.store = rest at outcome
    obtain ⟨e | xs, store⟩ := rest
    · cases outcome
    · cases outcome
      rfl

theorem perform_command (h : s.Evaluates (origin :: literals) (v :: operands) t) :
    s.perform (.command c (origin :: literals)) =
      ((exec (c.act operands) (v, t.store)).1, some (exec (c.act operands) (v, t.store)).2.1,
        putBack ⟨(exec (c.act operands) (v, t.store)).2.2, t.vars⟩ (exec (c.act operands) (v, t.store)).2.1
          origin) := by
  unfold perform
  dsimp only
  rw [h]
  rfl

/-- The receiver is put back as the command left it, which after a failure is as it was. -/
theorem perform_of_error (h : s.Evaluates (origin :: literals) (v :: operands) t) {fault : Fault}
    (failed : t.eval (c.run v operands) = (.error fault, u)) :
    s.perform (.command c (origin :: literals)) = (.error fault, some v, u) := by
  rw [h.perform_command]
  rw [eval_eq, Command.run, Act.exec_result] at failed
  obtain ⟨outcome, rfl⟩ := Prod.mk.inj failed
  have atomic := c.atomic_act operands (v, t.store)
  generalize exec (c.act operands) (v, t.store) = executed at outcome atomic ⊢
  obtain ⟨fault' | reply, receiver, store⟩ := executed
  · cases outcome
    obtain rfl : receiver = v := atomic _ _ rfl
    have same : putBack ⟨store, t.vars⟩ receiver origin = ⟨store, t.vars⟩ := by
      cases origin with
      | var name =>
        have found : t.vars.lookup name = some receiver := h.vars_eq ▸ h.lookup_eq
        exact congrArg (Session.mk store) (Variables.replace_of_lookup found)
      | _ => rfl
    rw [same]
  · cases outcome

theorem perform_of_ok (h : s.Evaluates (origin :: literals) (v :: operands) t) {reply : Reply Value}
    {receiver : Value} (done : t.eval (c.run v operands) = (.ok (reply, receiver), u)) :
    s.perform (.command c (origin :: literals)) = (.ok reply, some receiver, u.putBack receiver origin) := by
  rw [h.perform_command]
  rw [eval_eq, Command.run, Act.exec_result] at done
  obtain ⟨outcome, rfl⟩ := Prod.mk.inj done
  generalize exec (c.act operands) (v, t.store) = executed at outcome ⊢
  obtain ⟨fault | reply', receiver', store⟩ := executed
  · cases outcome
  · cases outcome
    rfl

end Evaluates

/-- A command runs on the values of its operands, unless they have none or there is no receiver. -/
theorem command_cases (s : Session) (c : Command) (literals : List Literal) :
    (∃ fault, s.perform (.command c literals) =
      (.error fault, none, (s.eval (Literal.evalItems s.vars literals)).2)) ∨
    ∃ origin rest v operands t, literals = origin :: rest ∧
      s.Evaluates (origin :: rest) (v :: operands) t := by
  unfold perform
  dsimp only
  rcases evaluated : s.eval (Literal.evalItems s.vars literals) with ⟨fault | values, t⟩
  · exact .inl ⟨fault, rfl⟩
  · cases values with
    | nil => exact .inl ⟨.malformed, rfl⟩
    | cons v operands =>
      cases literals with
      | nil => exact .inl ⟨.malformed, rfl⟩
      | cons origin rest => exact .inr ⟨origin, rest, v, operands, t, rfl, evaluated⟩

theorem leads_command (hs : s.Sound w) (c : Command) (literals : List Literal) :
    ∃ later, Leads w s later (s.perform (.command c literals)).2.2 ∧
      Gives (s.perform (.command c literals)).1 (Reply.Sound later) := by
  rcases s.command_cases c literals with ⟨fault, refused⟩ | ⟨origin, rest, v, operands, t, rfl, evaluates⟩
  · obtain ⟨later, leads, -⟩ := leads_eval (Literal.keeps_evalItems hs.vars literals) hs
    rw [refused]
    exact ⟨later, leads, .error _⟩
  · obtain ⟨now, leads, sound⟩ := evaluates.leads hs
    obtain ⟨hv, hoperands⟩ := List.forall_mem_cons.1 sound
    obtain ⟨later, leads', result⟩ := leads_eval (c.keeps_run hv hoperands) leads.sound
    rcases performed : t.eval (c.run v operands) with ⟨fault | ⟨reply, receiver⟩, u⟩
    · rw [performed] at leads'
      rw [evaluates.perform_of_error performed]
      exact ⟨later, leads.trans leads', .error _⟩
    · rw [performed] at leads' result
      rw [evaluates.perform_of_ok performed]
      obtain ⟨hreply, hreceiver⟩ := result _ rfl
      exact ⟨later, (leads.trans leads').putBack hreceiver origin, .ok hreply⟩

theorem leads_perform (hs : s.Sound w) (r : Request) :
    ∃ later, Leads w s later (s.perform r).2.2 ∧ Gives (s.perform r).1 (Reply.Sound later) := by
  cases r with
  | query q operands =>
    have run : Keeps w (do q.run (← Literal.evalItems s.vars operands)) Reply.Sound :=
      (Literal.keeps_evalItems hs.vars operands).bind fun _ _ _ => q.keeps_run
    exact leads_eval run hs
  | command c operands => exact leads_command hs c operands
  | fromHost h => exact ⟨w, .refl hs, .ok (.value (h.sound_toValue w))⟩
  | readConfig h =>
    unfold perform
    dsimp only
    split
    · exact ⟨w, .refl hs, .ok (.other rfl)⟩
    · exact ⟨w, .refl hs, .error _⟩

theorem leads_step (hs : s.Sound w) (watch : List String) (call : Call) :
    ∃ later, Leads w s later (s.step watch call).2 := by
  obtain ⟨later, leads, result⟩ := leads_perform hs call.request
  exact ⟨later, leads.take call.target result⟩

theorem leads_run (hs : s.Sound w) (watch : List String) (calls : List Call) :
    ∃ later, Leads w s later (s.run watch calls).2 := by
  induction calls generalizing w s with
  | nil => exact ⟨w, .refl hs⟩
  | cons call calls ih =>
    obtain ⟨now, leads⟩ := leads_step hs watch call
    obtain ⟨later, leads'⟩ := ih leads.sound
    exact ⟨later, leads.trans leads'⟩

theorem sound_empty : Session.empty.Sound .empty where
  store := ⟨rfl, rfl, by simp [empty, Store.empty], by simp [empty, Store.empty],
    by simp [World.Grounded, World.empty]⟩
  vars := by simp [empty, Variables.Sound]

/-- A session that a program can lead to. -/
def Reachable (s : Session) : Prop :=
  ∃ (watch : List String) (calls : List Call), (empty.run watch calls).2 = s

theorem Reachable.exists_sound (h : s.Reachable) : ∃ w, s.Sound w := by
  obtain ⟨watch, calls, rfl⟩ := h
  obtain ⟨later, leads⟩ := leads_run sound_empty watch calls
  exact ⟨later, leads.sound⟩

/-- A value that a variable or a cursor of the session has, or that is inside such a value. -/
inductive Holds (s : Session) (v : Value) : Prop where
  | inVariable {name : String} {u : Value} (bound : (name, u) ∈ s.vars)
      (inner : Value.Within Value.parts v u)
  | inCursor {c : Cursor} {u : Value} (mem : c ∈ s.store.cursors) (item : u ∈ c.items)
      (inner : Value.Within Value.parts v u)

theorem Holds.of_var (name : String) {v : Value} (bound : (name, v) ∈ s.vars) : s.Holds v := .inVariable bound .here

theorem Holds.within {v x : Value} (h : s.Holds v) (inner : Value.Within Value.parts x v) : s.Holds x := by
  cases h with
  | inVariable bound outer => exact .inVariable bound (inner.trans outer)
  | inCursor mem item outer => exact .inCursor mem item (inner.trans outer)

theorem Holds.part {v x : Value} (h : s.Holds v) (mem : x ∈ v.parts) : s.Holds x := h.within (.deeper mem .here)

theorem Sound.of_holds {v : Value} (hs : s.Sound w) (h : s.Holds v) : v.Sound w := by
  cases h with
  | inVariable bound inner => exact (hs.vars _ bound).within inner
  | inCursor mem item inner => exact (hs.store.items _ mem _ item).within inner

end Session
end DynamicValues
