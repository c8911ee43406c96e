import DynamicValues.Proofs.Dict
import DynamicValues.Run

/-!
Computations keep the store sound. Each of them ends in a later world, in which its result is sound too;
no cursor moves back. The rules for the combinators come first, then the primitives that touch the store,
then the loops over a cursor.
-/

set_option autoImplicit false

namespace DynamicValues

/-- From a store to a later one, with the worlds in which they are sound. -/
structure Evolves (w : World) (s : Store) (later : World) (t : Store) : Prop where
  grows : w.Extends later
  sound : t.Sound later
  forward : ∀ i, (s.cursor i).position ≤ (t.cursor i).position

theorem Evolves.refl {w : World} {s : Store} (h : s.Sound w) : Evolves w s w s :=
  ⟨.refl w, h, fun _ => Nat.le_refl _⟩

theorem Evolves.trans {w₁ w₂ w₃ : World} {s₁ s₂ s₃ : Store} (h₁ : Evolves w₁ s₁ w₂ s₂)
    (h₂ : Evolves w₂ s₂ w₃ s₃) : Evolves w₁ s₁ w₃ s₃ :=
  ⟨h₁.grows.trans h₂.grows, h₂.sound, fun i => (h₁.forward i).trans (h₂.forward i)⟩

/-- What is true in a world stays true in later ones. -/
def Persists {β : Type} (inv : World → β → Prop) : Prop :=
  ∀ ⦃w later : World⦄ ⦃b : β⦄, w.Extends later → inv w b → inv later b

theorem persists_sound : Persists Value.Sound := fun _ _ _ grows h => h.mono grows

theorem persists_forall_mem {β : Type} {inv : World → β → Prop} (h : Persists inv) :
    Persists fun w (xs : List β) => ∀ x ∈ xs, inv w x :=
  fun _ _ _ grows all x hx => h grows (all x hx)

theorem persists_items : Persists Items.Sound := persists_forall_mem persists_sound

section Keeps

variable {ε σ α β : Type}

/-- The outcome of a computation and the state after it. -/
def exec (m : ExceptT ε (StateM σ) α) (s : σ) : Except ε α × σ := m.run.run s

theorem exec_bind (m : ExceptT ε (StateM σ) α) (f : α → ExceptT ε (StateM σ) β) (s : σ) :
    exec (m >>= f) s =
      match exec m s with
      | (.ok a, t) => exec (f a) t
      | (.error e, t) => (.error e, t) := by
  change (ExceptT.bindCont f (exec m s).1).run (exec m s).2 = _
  rcases exec m s with ⟨e | a, t⟩ <;> rfl

theorem exec_tryCatch (m : ExceptT ε (StateM Store) α) (handler : ε → ExceptT ε (StateM Store) α)
    (s : Store) :
    exec (tryCatch m handler) s =
      match exec m s with
      | (.ok a, t) => (.ok a, t)
      | (.error e, t) => exec (handler e) t := by
  unfold exec ExceptT.run StateT.run
  simp only [tryCatch, tryCatchThe, MonadExceptOf.tryCatch, ExceptT.tryCatch, ExceptT.mk, bind, StateT.bind]
  rcases m s with ⟨e | a, t⟩ <;> rfl

/-- From every store that is sound in `w`, the computation ends in a store that is sound in a later world,
and its result, if there is one, satisfies `post` there. -/
def Keeps (w : World) (m : ExceptT ε (StateM Store) α) (post : World → α → Prop) : Prop :=
  ∀ s : Store, s.Sound w → ∃ later, Evolves w s later (exec m s).2 ∧ Gives (exec m s).1 (post later)

namespace Keeps

variable {w : World} {post : World → α → Prop}

theorem pure {a : α} (h : post w a) : Keeps w (pure a : ExceptT ε (StateM Store) α) post := by
  intro s hs
  refine ⟨w, .refl hs, ?_⟩
  rintro b ⟨⟩
  exact h

theorem throw (e : ε) : Keeps w (throw e : ExceptT ε (StateM Store) α) post := by
  intro s hs
  refine ⟨w, .refl hs, ?_⟩
  rintro b ⟨⟩

theorem bind {m : ExceptT ε (StateM Store) α} {f : α → ExceptT ε (StateM Store) β}
    {post' : World → β → Prop} (hm : Keeps w m post)
    (hf : ∀ later a, w.Extends later → post later a → Keeps later (f a) post') :
    Keeps w (m >>= f) post' := by
  intro s hs
  obtain ⟨middle, evolves, result⟩ := hm s hs
  rw [exec_bind]
  rcases hexec : exec m s with ⟨outcome, t⟩
  rw [hexec] at evolves result
  cases outcome with
  | error e =>
    refine ⟨middle, evolves, ?_⟩
    rintro b ⟨⟩
  | ok a =>
    obtain ⟨later, evolves', result'⟩ := hf middle a evolves.grows (result a rfl) t evolves.sound
    exact ⟨later, evolves.trans evolves', result'⟩

/-- A computation that applies a function to the result of another. -/
theorem map {m : ExceptT ε (StateM Store) α} {f : α → β} {post' : World → β → Prop} (hm : Keeps w m post)
    (hf : ∀ later a, w.Extends later → post later a → post' later (f a)) :
    Keeps w (do return f (← m)) post' :=
  hm.bind fun later a grows ha => .pure (hf later a grows ha)

theorem get_bind {f : Store → ExceptT ε (StateM Store) α} (h : ∀ s, Keeps w (f s) post) :
    Keeps w (get >>= f) post :=
  fun s hs => h s s hs

theorem tryCatch {m : ExceptT ε (StateM Store) α} {handler : ε → ExceptT ε (StateM Store) α}
    (hm : Keeps w m post) (hh : ∀ later e, Keeps later (handler e) post) :
    Keeps w (tryCatch m handler) post := by
  intro s hs
  obtain ⟨middle, evolves, result⟩ := hm s hs
  rw [exec_tryCatch]
  rcases hexec : exec m s with ⟨outcome, t⟩
  rw [hexec] at evolves result
  cases outcome with
  | ok a => exact ⟨middle, evolves, result⟩
  | error e =>
    obtain ⟨later, evolves', result'⟩ := hh middle e t evolves.sound
    exact ⟨later, evolves.trans evolves', result'⟩

theorem liftExcept {x : Except Error α} (h : Gives x (post w)) : Keeps w (liftM x : Run α) post :=
  fun _ hs => ⟨w, .refl hs, h⟩

/-- What does not touch the store leaves the world alone. -/
theorem check {x : Except Error α} {f : α → Run β} {p : α → Prop} {post' : World → β → Prop}
    (hx : Gives x p) (hf : ∀ a, p a → Keeps w (f a) post') : Keeps w (liftM x >>= f) post' := by
  cases x with
  | error e => exact .throw e
  | ok a => exact hf a (hx a rfl)

theorem attempt {m : Run α} (h : Keeps w m post) :
    Keeps w (Run.attempt m) fun later outcome => Gives outcome (post later) := by
  intro s hs
  obtain ⟨later, evolves, result⟩ := h s hs
  refine ⟨later, evolves, ?_⟩
  rintro outcome ⟨⟩
  exact result

theorem modifyGet {f : Store → α × Store}
    (h : ∀ s, s.Sound w → ∃ later, Evolves w s later (f s).2 ∧ post later (f s).1) :
    Keeps w (modifyGet f : ExceptT ε (StateM Store) α) post := by
  intro s hs
  obtain ⟨later, evolves, result⟩ := h s hs
  refine ⟨later, evolves, ?_⟩
  rintro a ⟨⟩
  exact result

end Keeps
end Keeps

namespace Store

variable {w : World} {s : Store}

theorem sound_addStorage (hs : s.Sound w) (items : List Value) :
    Evolves w s (w.addStorage items) s.addStorage.2 := by
  have grows := w.extends_addStorage items
  refine ⟨grows, ⟨?_, hs.cursors, hs.position_le, ?_, hs.grounded⟩, fun _ => Nat.le_refl _⟩
  · simp [addStorage, World.addStorage, hs.storages]
  · intro c hc x hx
    exact (hs.items c hc x hx).mono grows

theorem sound_addCursor (hs : s.Sound w) {items : List Value} (hi : Items.Sound w items) :
    Evolves w s (w.addCursor items) (s.addCursor items).2 := by
  have grows := w.extends_addCursor items
  refine ⟨grows, ⟨hs.storages, ?_, ?_, ?_, hs.grounded.addCursor hi⟩, ?_⟩
  · simp [addCursor, World.addCursor, hs.cursors, Cursor.start]
  · intro c hc
    rcases Array.mem_push.1 hc with old | rfl
    · exact hs.position_le c old
    · exact Nat.zero_le _
  · intro c hc x hx
    rcases Array.mem_push.1 hc with old | rfl
    · exact (hs.items c old x hx).mono grows
    · exact (hi x (by simpa [Cursor.start] using hx)).mono grows
  · intro i
    by_cases old : i < s.cursors.size
    · rw [cursor_addCursor_of_lt old]
    · simp [cursor, old, Cursor.start]

/-- A cursor that is not exhausted gives an item and moves by one; any other stays. -/
theorem advance_cases (s : Store) (i : Nat) :
    s.advance i = (none, s) ∨ ∃ c x, s.cursors[i]? = some c ∧ c.items[c.position]? = some x ∧
      s.advance i = (some x, ⟨s.cursors.setIfInBounds i ⟨c.items, c.position + 1⟩, s.storages⟩) := by
  cases found : s.cursors[i]? with
  | none =>
    left
    simp [advance, cursor, found, Cursor.next?, Cursor.start]
  | some c =>
    cases item : c.items[c.position]? with
    | none =>
      left
      simp [advance, cursor, found, Cursor.next?, item]
    | some x =>
      right
      exact ⟨c, x, rfl, item, by simp [advance, cursor, found, Cursor.next?, item]⟩

theorem sound_moved (hs : s.Sound w) {i : Nat} {c : Cursor} (found : s.cursors[i]? = some c)
    (unfinished : c.position < c.total) :
    Store.Sound w ⟨s.cursors.setIfInBounds i ⟨c.items, c.position + 1⟩, s.storages⟩ := by
  have mem : ∀ d ∈ s.cursors.setIfInBounds i ⟨c.items, c.position + 1⟩,
      d ∈ s.cursors ∨ d = ⟨c.items, c.position + 1⟩ := by
    intro d hd
    exact Array.mem_or_eq_of_mem_setIfInBounds hd
  have hc : c ∈ s.cursors := Array.mem_of_getElem? found
  refine ⟨hs.storages, ?_, ?_, ?_, hs.grounded⟩
  · obtain ⟨bound, rfl⟩ := Array.getElem?_eq_some_iff.1 found
    rw [← hs.cursors, Array.toList_setIfInBounds, List.map_set]
    have bound' : i < (s.cursors.toList.map Cursor.items).length := by simpa using bound
    have own : s.cursors[i].items = (s.cursors.toList.map Cursor.items)[i] := by simp
    rw [own, List.set_getElem_self]
  · intro d hd
    rcases mem d hd with old | rfl
    · exact hs.position_le d old
    · exact unfinished
  · intro d hd
    rcases mem d hd with old | rfl
    · exact hs.items d old
    · exact hs.items c hc

theorem sound_advance (hs : s.Sound w) (i : Nat) :
    Evolves w s w (s.advance i).2 ∧ ∀ x, (s.advance i).1 = some x → x.Sound w := by
  rcases s.advance_cases i with stays | ⟨c, x, found, item, moves⟩
  · rw [stays]
    exact ⟨.refl hs, by simp⟩
  · have hc : c ∈ s.cursors := Array.mem_of_getElem? found
    obtain ⟨unfinished, -⟩ := Array.getElem?_eq_some_iff.1 item
    refine ⟨⟨.refl w, ?_, ?_⟩, ?_⟩
    · rw [moves]
      exact sound_moved hs found unfinished
    · intro j
      by_cases same : i = j
      · subst same
        obtain ⟨bound, rfl⟩ := Array.getElem?_eq_some_iff.1 found
        simp [moves, cursor, bound]
      · rw [cursor_advance_of_ne same]
    · rw [moves]
      rintro y ⟨⟩
      exact hs.items c hc x (Array.mem_of_getElem? item)

end Store

namespace Run

variable {w : World}

theorem keeps_newCursor {items : List Value} (h : Items.Sound w items) :
    Keeps w (newCursor items) fun later i => (Value.iter i).Sound later := by
  refine .modifyGet fun s hs => ⟨w.addCursor items, Store.sound_addCursor hs h, ?_⟩
  refine .of_scalar ?_ rfl
  simp [Value.Fits, World.addCursor, Store.addCursor, hs.size_eq]

theorem keeps_newIter {items : List Value} (h : Items.Sound w items) :
    Keeps w (newIter items) Value.Sound :=
  (keeps_newCursor h).map fun _ _ _ hi => hi

theorem keeps_newTuple {items : List Value} (h : Items.Sound w items) :
    Keeps w (newTuple items) Value.Sound := by
  have storage : Keeps w (modifyGet fun s => s.addStorage : Run Nat) fun later i =>
      (Value.tuple i items).Sound later := by
    refine .modifyGet fun s hs => ⟨w.addStorage items, Store.sound_addStorage hs items, ?_⟩
    refine .of_parts ?_ fun x hx => (h x hx).mono (w.extends_addStorage items)
    simp [Value.Fits, World.addStorage, Store.addStorage, hs.storages]
  exact storage.map fun _ _ _ hi => hi

theorem keeps_next (i : Nat) : Keeps w (next i) fun later r => ∀ x, r = some x → x.Sound later := by
  refine .modifyGet fun s hs => ?_
  obtain ⟨evolves, result⟩ := Store.sound_advance hs i
  exact ⟨w, evolves, result⟩

theorem keeps_remaining (i : Nat) : Keeps w (remaining i) fun _ _ => True :=
  .get_bind fun _ => .pure trivial

theorem keeps_cursorOf {v : Value} (h : v.Sound w) :
    Keeps w (cursorOf v) fun later i => (Value.iter i).Sound later := by
  cases v with
  | iter i => exact .pure h
  | str t =>
    apply keeps_newCursor
    rw [Items.Sound, List.forall_mem_map]
    intro letter _
    exact Value.sound_str w letter
  | tuple i xs => exact keeps_newCursor fun x hx => h.part hx
  | list xs => exact keeps_newCursor fun x hx => h.part hx
  | dict d => exact keeps_newCursor (Dict.sound_keys h)
  | _ => exact .throw _

section Loops

variable {β : Type} (inv : World → β → Prop)

/-- A fold keeps what each round keeps, if that survives in later worlds. -/
theorem keeps_foldLoop (mono : Persists inv) {f : β → Value → Run β} (i : Nat)
    (step : ∀ (now : World) (b : β) (x : Value), w.Extends now → inv now b → x.Sound now →
      Keeps now (f b x) inv)
    (rounds : Nat) {b : β} (start : inv w b) : Keeps w (foldLoop i f rounds b) inv := by
  induction rounds generalizing w b with
  | zero => exact .pure start
  | succ rounds ih =>
    rw [foldLoop]
    refine (keeps_next i).bind fun now r grows hr => ?_
    cases r with
    | none => exact .pure (mono grows start)
    | some x =>
      refine (step now b x grows (mono grows start) (hr x rfl)).bind fun after b' grows' hb' => ?_
      exact ih (fun now b x grows'' => step now b x ((grows.trans grows').trans grows'')) hb'

theorem keeps_foldCursor (mono : Persists inv) {f : β → Value → Run β} (i : Nat)
    (step : ∀ (now : World) (b : β) (x : Value), w.Extends now → inv now b → x.Sound now →
      Keeps now (f b x) inv)
    {init : β} (start : inv w init) : Keeps w (foldCursor i init f) inv := by
  refine (keeps_remaining i).bind fun now rounds grows _ => ?_
  refine keeps_foldLoop inv mono i ?_ rounds (mono grows start)
  exact fun now b x grows' => step now b x (grows.trans grows')

theorem keeps_mapCursor {sound : World → β → Prop} (mono : Persists sound) {f : Value → Run β} (i : Nat)
    (step : ∀ (now : World) (x : Value), w.Extends now → x.Sound now → Keeps now (f x) sound) :
    Keeps w (mapCursor i f) fun later ys => ∀ y ∈ ys, sound later y := by
  have fold : Keeps w (foldCursor i [] fun ys x => return (← f x) :: ys) fun later ys =>
      ∀ y ∈ ys, sound later y := by
    refine keeps_foldCursor _ (persists_forall_mem mono) i ?_ (by simp)
    intro now ys x grows hys hx
    refine (step now x grows hx).map fun later y grows' hy => ?_
    exact List.forall_mem_cons.2 ⟨hy, fun z hz => mono grows' (hys z hz)⟩
  exact fold.map fun _ _ _ h y hy => h y (List.mem_reverse.1 hy)

theorem keeps_drain (i : Nat) : Keeps w (drain i) Items.Sound :=
  keeps_mapCursor persists_sound i fun _ _ _ hx => .pure hx

theorem keeps_itemsOf {v : Value} (h : v.Sound w) :
    Keeps w (itemsOf v) Items.Sound :=
  (keeps_cursorOf h).bind fun _ i _ _ => keeps_drain i

theorem keeps_seekLoop (i : Nat) (p : Value → Bool) (rounds : Nat) :
    Keeps w (seekLoop i p rounds) fun _ _ => True := by
  induction rounds generalizing w with
  | zero => exact .pure trivial
  | succ rounds ih =>
    rw [seekLoop]
    refine (keeps_next i).bind fun now r _ _ => ?_
    cases r with
    | none => exact .pure trivial
    | some x =>
      dsimp only
      split
      · exact .pure trivial
      · exact ih

theorem keeps_seek (i : Nat) (p : Value → Bool) : Keeps w (seek i p) fun _ _ => True :=
  (keeps_remaining i).bind fun _ rounds _ _ => keeps_seekLoop i p rounds

end Loops
end Run

end DynamicValues
