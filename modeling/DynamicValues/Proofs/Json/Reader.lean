import DynamicValues.Proofs.Json.Tokens

/-!
Reading JSON. A machine with a stack of unfinished arrays and objects takes the tokens of a text one by one.
Reading accepts exactly the well-formed texts, and gives what they denote.
-/

set_option autoImplicit false

namespace DynamicValues
namespace Json

/-- What has been read of an array or an object, the latest first, up to the value that is being read. -/
inductive Frame where
  | items (done : List Host)
  | fields (done : List (Text × Host)) (name : Text)

/-- What is expected next, inside the given arrays and objects. -/
inductive State where
  | value (stack : List Frame)
  | firstItem (stack : List Frame)
  | firstName (stack : List Frame)
  | name (done : List (Text × Host)) (stack : List Frame)
  | colon (done : List (Text × Host)) (name : Text) (stack : List Frame)
  /-- Nothing but the end of what is around the value. -/
  | done (h : Host) (stack : List Frame)

namespace State

def start (stack : List Frame) : Token → Option State
  | .scalar h => some (.done h stack)
  | .text t => some (.done (.string t) stack)
  | .openArray => some (.firstItem stack)
  | .openObject => some (.firstName stack)
  | _ => none

def step : State → Token → Option State
  | .value stack, t => start stack t
  | .firstItem stack, .closeArray => some (.done (.array []) stack)
  | .firstItem stack, t => start (.items [] :: stack) t
  | .firstName stack, .closeObject => some (.done (.object []) stack)
  | .firstName stack, .text t => some (.colon [] t stack)
  | .name fields stack, .text t => some (.colon fields t stack)
  | .colon fields t stack, .colon => some (.value (.fields fields t :: stack))
  | .done h (.items items :: stack), .comma => some (.value (.items (h :: items) :: stack))
  | .done h (.items items :: stack), .closeArray => some (.done (.array (h :: items).reverse) stack)
  | .done h (.fields fields t :: stack), .comma => some (.name ((t, h) :: fields) stack)
  | .done h (.fields fields t :: stack), .closeObject =>
    some (.done (.object (Fields.settle ((t, h) :: fields).reverse)) stack)
  | _, _ => none

def run (s : State) (ts : List Token) : Option State := ts.foldlM step s

theorem run_cons (s : State) (t : Token) (ts : List Token) : s.run (t :: ts) = (s.step t).bind (run · ts) := rfl

theorem run_append (s : State) (ts us : List Token) : s.run (ts ++ us) = (s.run ts).bind (run · us) :=
  List.foldlM_append

def host? : State → Option Host
  | .done h [] => some h
  | _ => none

end State

def read (text : List Char) : Option Host := do
  let ts ← lex text
  (← (State.value []).run ts).host?

/-- What comes first in an array is read like the rest, for no phrase begins with the end of an array. -/
theorem run_firstItem (stack : List Frame) {ts : List Token} {items : List Host}
    (elements : Elements ts items) (us : List Token) :
    (State.firstItem stack).run (ts ++ us) = (State.value (.items [] :: stack)).run (ts ++ us) := by
  cases elements with
  | last phrase => cases phrase <;> rfl
  | cons phrase _ => cases phrase <;> rfl

theorem run_firstName (stack : List Frame) {ts : List Token} {fields : List (Text × Host)}
    (members : Members ts fields) (us : List Token) :
    (State.firstName stack).run (ts ++ us) = (State.name [] stack).run (ts ++ us) := by
  cases members with
  | last member => cases member; rfl
  | cons member _ => cases member; rfl

mutual

/-- The machine reads a phrase on any stack: by induction on the derivation, with what was read before open. -/
theorem run_phrase (stack : List Frame) : ∀ {ts : List Token} {h : Host}, Phrase ts h →
    (State.value stack).run ts = some (.done h stack)
  | _, _, .scalar _ => rfl
  | _, _, .text _ => rfl
  | _, _, .emptyArray => rfl
  | _, _, .array elements => (run_firstItem stack elements _).trans (run_elements [] stack elements)
  | _, _, .emptyObject => rfl
  | _, _, .object members => (run_firstName stack members _).trans (run_members [] stack members)

theorem run_elements (done : List Host) (stack : List Frame) : ∀ {ts : List Token} {items : List Host},
    Elements ts items → (State.value (.items done :: stack)).run (ts ++ [.closeArray]) =
      some (.done (.array (done.reverse ++ items)) stack)
  | _, _, .last phrase => by
    rw [State.run_append, run_phrase _ phrase, ← List.reverse_cons]
    rfl
  | _, _, @Elements.cons _ _ h _ phrase rest => by
    have others := run_elements (h :: done) stack rest
    rw [List.reverse_cons, List.append_assoc] at others
    rw [List.append_assoc, State.run_append, run_phrase _ phrase]
    exact others

theorem run_member (done : List (Text × Host)) (stack : List Frame) :
    ∀ {ts : List Token} {f : Text × Host}, Member ts f →
      (State.name done stack).run ts = some (.done f.2 (.fields done f.1 :: stack))
  | _, _, .field phrase => run_phrase _ phrase

theorem run_members (done : List (Text × Host)) (stack : List Frame) :
    ∀ {ts : List Token} {fields : List (Text × Host)}, Members ts fields →
      (State.name done stack).run (ts ++ [.closeObject]) =
        some (.done (.object (Fields.settle (done.reverse ++ fields))) stack)
  | _, _, .last member => by
    rw [State.run_append, run_member _ _ member, ← List.reverse_cons]
    rfl
  | _, _, @Members.cons _ _ f _ member rest => by
    have others := run_members (f :: done) stack rest
    rw [List.reverse_cons, List.append_assoc] at others
    rw [List.append_assoc, State.run_append, run_member _ _ member]
    exact others

end

/-! What has been read is the beginning of a phrase. -/

/-- Parts with a comma after each of them, the latest first. -/
inductive Listed {α : Type} (Part : List Token → α → Prop) : List Token → List α → Prop where
  | nil : Listed Part [] []
  | snoc {ts us : List Token} {a : α} {as : List α} :
      Listed Part ts as → Part us a → Listed Part (ts ++ (us ++ [.comma])) (a :: as)

theorem Listed.elements {ts us : List Token} {done items : List Host} (listed : Listed Phrase ts done)
    (rest : Elements us items) : Elements (ts ++ us) (done.reverse ++ items) := by
  induction listed generalizing us items with
  | nil => exact rest
  | snoc _ phrase ih =>
    have all := ih (.cons phrase rest)
    rw [List.reverse_cons, List.append_assoc]
    simpa using all

theorem Listed.members {ts us : List Token} {done fields : List (Text × Host)} (listed : Listed Member ts done)
    (rest : Members us fields) : Members (ts ++ us) (done.reverse ++ fields) := by
  induction listed generalizing us fields with
  | nil => exact rest
  | snoc _ member ih =>
    have all := ih (.cons member rest)
    rw [List.reverse_cons, List.append_assoc]
    simpa using all

/-- The tokens before the value that is being read. -/
inductive Pending : List Frame → List Token → Prop where
  | nil : Pending [] []
  | items {stack : List Frame} {ts us : List Token} {done : List Host} :
      Pending stack ts → Listed Phrase us done → Pending (.items done :: stack) (ts ++ .openArray :: us)
  | fields {stack : List Frame} {ts us : List Token} {done : List (Text × Host)} {name : Text} :
      Pending stack ts → Listed Member us done →
      Pending (.fields done name :: stack) (ts ++ .openObject :: (us ++ [.text name, .colon]))

/-- The tokens that lead to a state. -/
inductive Reached : List Token → State → Prop where
  | value {stack : List Frame} {ts : List Token} : Pending stack ts → Reached ts (.value stack)
  | firstItem {stack : List Frame} {ts : List Token} :
      Pending stack ts → Reached (ts ++ [.openArray]) (.firstItem stack)
  | firstName {stack : List Frame} {ts : List Token} :
      Pending stack ts → Reached (ts ++ [.openObject]) (.firstName stack)
  | name {stack : List Frame} {ts us : List Token} {done : List (Text × Host)} :
      Pending stack ts → Listed Member us done → Reached (ts ++ .openObject :: us) (.name done stack)
  | colon {stack : List Frame} {ts us : List Token} {done : List (Text × Host)} {name : Text} :
      Pending stack ts → Listed Member us done →
      Reached (ts ++ .openObject :: (us ++ [.text name])) (.colon done name stack)
  | done {stack : List Frame} {ts us : List Token} {h : Host} :
      Pending stack ts → Phrase us h → Reached (ts ++ us) (.done h stack)

theorem Pending.start {stack : List Frame} {ts : List Token} {t : Token} {s : State}
    (pending : Pending stack ts) (next : State.start stack t = some s) : Reached (ts ++ [t]) s := by
  unfold State.start at next
  split at next
  · cases next
    exact .done pending (.scalar _)
  · cases next
    exact .done pending (.text _)
  · cases next
    exact .firstItem pending
  · cases next
    exact .firstName pending
  · contradiction

/-- The end of a value inside an array or an object. -/
theorem Pending.close {stack : List Frame} {ts us : List Token} {h : Host} {t : Token} {s : State}
    (pending : Pending stack ts) (phrase : Phrase us h) (next : (State.done h stack).step t = some s) :
    Reached (ts ++ us ++ [t]) s := by
  cases pending with
  | nil => contradiction
  | items pending listed =>
    cases t with
    | comma =>
      cases next
      simpa using Reached.value (.items pending (.snoc listed phrase))
    | closeArray =>
      cases next
      simpa using Reached.done pending (.array (listed.elements (.last phrase)))
    | _ => contradiction
  | @fields _ _ _ _ name pending listed =>
    have member : Member (.text name :: .colon :: us) (name, h) := .field phrase
    cases t with
    | comma =>
      cases next
      simpa using Reached.name pending (.snoc listed member)
    | closeObject =>
      cases next
      simpa using Reached.done pending (.object (listed.members (.last member)))
    | _ => contradiction

theorem Reached.step {ts : List Token} {t : Token} {s s' : State} (reached : Reached ts s)
    (next : s.step t = some s') : Reached (ts ++ [t]) s' := by
  cases reached with
  | value pending => exact pending.start next
  | firstItem pending =>
    cases t with
    | closeArray =>
      cases next
      simpa using Reached.done pending .emptyArray
    | _ => exact (Pending.items pending .nil).start next
  | firstName pending =>
    cases t with
    | closeObject =>
      cases next
      simpa using Reached.done pending .emptyObject
    | text name =>
      cases next
      simpa using Reached.colon pending .nil
    | _ => contradiction
  | name pending listed =>
    cases t with
    | text name =>
      cases next
      simpa using Reached.colon pending listed
    | _ => contradiction
  | colon pending listed =>
    cases t with
    | colon =>
      cases next
      simpa using Reached.value (.fields pending listed)
    | _ => contradiction
  | done pending phrase => exact pending.close phrase next

theorem Reached.run {ts us : List Token} {s s' : State} (reached : Reached ts s) (run : s.run us = some s') :
    Reached (ts ++ us) s' := by
  induction us generalizing ts s with
  | nil =>
    cases run
    rwa [List.append_nil]
  | cons t us ih =>
    rw [State.run_cons] at run
    obtain ⟨next, step, rest⟩ := Option.bind_eq_some_iff.1 run
    have all := ih (reached.step step) rest
    rwa [List.append_assoc] at all

theorem phrase_of_run {ts : List Token} {h : Host} (run : (State.value []).run ts = some (.done h [])) :
    Phrase ts h := by
  have reached := (Reached.value .nil).run run
  rw [List.nil_append] at reached
  cases reached with
  | done pending phrase =>
    cases pending
    exact phrase

/-- Reading accepts exactly the well-formed texts, and gives what they denote. -/
theorem read_eq_some_iff {text : List Char} {h : Host} : read text = some h ↔ Denotes text h := by
  simp only [read, Option.bind_eq_bind, Option.bind_eq_some_iff, lex_eq_some_iff]
  constructor
  · rintro ⟨ts, spells, s, run, finished⟩
    unfold State.host? at finished
    split at finished
    · cases finished
      exact ⟨ts, spells, phrase_of_run run⟩
    · contradiction
  · rintro ⟨ts, spells, phrase⟩
    exact ⟨ts, spells, _, run_phrase [] phrase, rfl⟩

end Json
end DynamicValues
