import DynamicValues.Host.Exchange
import DynamicValues.Host.Json
import DynamicValues.Proofs.Json.Numeral
import DynamicValues.Proofs.Json.Reader
import DynamicValues.Proofs.Query
import DynamicValues.Proofs.Serializer

/-!
Writing JSON. The text of a value is well formed and denotes the host data of that value; where there are
none, writing fails as the exchange does.
-/

set_option autoImplicit false

namespace DynamicValues
namespace Json

/-! Strings. -/

theorem hex?_digitChar : ∀ d < 16, hex? (Nat.digitChar d) = some d := by decide

/-- Four digits suffice for a control character. -/
theorem unit?_control {n : Nat} (control : n < 0x20) :
    unit? ['0', '0', Nat.digitChar (n / 16), Nat.digitChar (n % 16)] = some n := by
  have zero : hex? '0' = some 0 := by decide
  have high := hex?_digitChar (n / 16) (by omega)
  have low := hex?_digitChar (n % 16) (by omega)
  simp [unit?, zero, high, low, Nat.div_add_mod]

theorem spelled_escape (c : Char) : Spelled c (escape c) := by
  unfold escape
  split_ifs with quote backslash newline carriage tab backspace feed control
  · subst quote; exact .short rfl
  · subst backslash; exact .short rfl
  · subst newline; exact .short rfl
  · subst carriage; exact .short rfl
  · subst tab; exact .short rfl
  · subst backspace; exact .short rfl
  · subst feed; exact .short rfl
  · exact .unit (unit?_control control)
  · exact .plain (Nat.le_of_not_lt control) quote backslash

theorem quoted_escape (cs : List Char) : Quoted cs (cs.flatMap escape) := by
  induction cs with
  | nil => exact .nil
  | cons c cs ih =>
    rw [List.flatMap_cons]
    exact .cons (spelled_escape c) ih

/-! Tokens before a text that goes on. -/

/-- A text that spells tokens in front of anything that no word runs into. -/
def Begins (text : List Char) (ts : List Token) : Prop :=
  ∀ (rest : List Char) (us : List Token), Ends rest → Spells rest us → Spells (text ++ rest) (ts ++ us)

theorem begins_nil : Begins [] [] := fun _ _ _ spells => spells

theorem begins_quote (cs : List Char) : Begins (quote cs) [.text ⟨cs⟩] := by
  intro rest us _ spells
  have text := Spells.quoted (quoted_escape cs) spells
  simpa [quote] using text

theorem begins_scalar {word : List Char} {h : Host} (scalar : Scalar word h) : Begins word [.scalar h] :=
  fun _ _ ends spells => .word scalar ends spells

theorem Begins.mark {c : Char} {t : Token} (mark : mark? c = some t) {text : List Char} {ts : List Token}
    (after : Begins text ts) : Begins (c :: text) (t :: ts) :=
  fun rest us ends spells => .mark mark (after rest us ends spells)

/-- A word ends before a mark. -/
theorem isWordChar_of_mark? {c : Char} {t : Token} (mark : mark? c = some t) : isWordChar c = false := by
  unfold mark? at mark
  split at mark
  all_goals first | contradiction | rfl

theorem Begins.append_mark {text text' : List Char} {ts us : List Token} {c : Char} {t : Token}
    (before : Begins text ts) (mark : mark? c = some t) (after : Begins text' us) :
    Begins (text ++ c :: text') (ts ++ t :: us) := by
  intro rest vs ends spells
  have stop : Ends (c :: text' ++ rest) := by
    rintro _ ⟨⟩
    exact isWordChar_of_mark? mark
  rw [List.append_assoc, List.append_assoc]
  exact before _ _ stop (after.mark mark rest vs ends spells)

/-! Phrases. -/

/-- A text whose tokens are a phrase of some kind for the given data. -/
def Written {α : Type} (Part : List Token → α → Prop) (text : List Char) (a : α) : Prop :=
  ∃ ts, Part ts a ∧ Begins text ts

def commas (parts : List (List Char)) : List Char := [','].intercalate parts

theorem commas_singleton (text : List Char) : commas [text] = text := by
  simp [commas, List.intercalate]

theorem commas_cons_cons (text other : List Char) (texts : List (List Char)) :
    commas (text :: other :: texts) = text ++ ',' :: commas (other :: texts) := by
  simp [commas, List.intercalate]

/-- Parts with commas between them. -/
theorem written_commas {α : Type} {Part : List Token → α → Prop} {All : List Token → List α → Prop}
    (last : ∀ {ts a}, Part ts a → All ts [a])
    (cons : ∀ {ts us a as}, Part ts a → All us as → All (ts ++ .comma :: us) (a :: as))
    {text : List Char} {a : α} {texts : List (List Char)} {as : List α}
    (first : Written Part text a) (rest : List.Forall₂ (Written Part) texts as) :
    Written All (commas (text :: texts)) (a :: as) := by
  obtain ⟨ts, part, begins⟩ := first
  induction rest generalizing text a ts with
  | nil =>
    rw [commas_singleton]
    exact ⟨ts, last part, begins⟩
  | cons next _ ih =>
    obtain ⟨us, part', begins'⟩ := next
    obtain ⟨vs, all, others⟩ := ih us part' begins'
    rw [commas_cons_cons]
    exact ⟨_, cons part all, begins.append_mark rfl others⟩

theorem written_scalar {word : List Char} {h : Host} (scalar : Scalar word h) : Written Phrase word h :=
  ⟨_, .scalar h, begins_scalar scalar⟩

theorem written_array {texts : List (List Char)} {items : List Host}
    (all : List.Forall₂ (Written Phrase) texts items) :
    Written Phrase ('[' :: (commas texts ++ [']'])) (.array items) := by
  cases all with
  | nil => exact ⟨_, .emptyArray, .mark rfl (.mark rfl begins_nil)⟩
  | cons first rest =>
    have all : Written Elements (commas (_ :: _)) (_ :: _) := written_commas .last .cons first rest
    obtain ⟨ts, elements, begins⟩ := all
    exact ⟨_, .array elements, .mark rfl (begins.append_mark rfl begins_nil)⟩

theorem written_member (name : Text) {text : List Char} {h : Host} (value : Written Phrase text h) :
    Written Member (quote name.chars ++ ':' :: text) (name, h) := by
  obtain ⟨ts, phrase, begins⟩ := value
  exact ⟨_, .field phrase, (begins_quote name.chars).append_mark rfl begins⟩

theorem written_object {texts : List (List Char)} {fields : List (Text × Host)}
    (all : List.Forall₂ (Written Member) texts fields) :
    Written Phrase ('\x7b' :: (commas texts ++ ['\x7d'])) (.object (Host.putFields [] fields)) := by
  cases all with
  | nil => exact ⟨_, .emptyObject, .mark rfl (.mark rfl begins_nil)⟩
  | cons first rest =>
    have all : Written Members (commas (_ :: _)) (_ :: _) := written_commas .last .cons first rest
    obtain ⟨ts, members, begins⟩ := all
    rw [Fields.putFields_eq]
    exact ⟨_, .object members, .mark rfl (begins.append_mark rfl begins_nil)⟩

theorem Written.denotes {text : List Char} {h : Host} (written : Written Phrase text h) : Denotes text h := by
  obtain ⟨ts, phrase, begins⟩ := written
  have spells := begins [] [] nofun .nil
  rw [List.append_nil, List.append_nil] at spells
  exact ⟨ts, spells, phrase⟩

/-! Values. -/

/-- An array or an object with these parts, which is open to more of them. -/
def Compound.opened (mark : Char) (parts : List (List Char)) : Compound := ⟨mark :: commas parts, parts.isEmpty⟩

theorem commas_append_singleton (text part : List Char) (texts : List (List Char)) :
    commas (text :: texts ++ [part]) = commas (text :: texts) ++ ',' :: part := by
  induction texts generalizing text with
  | nil => rw [List.cons_append, List.nil_append, commas_cons_cons, commas_singleton, commas_singleton]
  | cons other texts ih =>
    rw [List.cons_append, List.cons_append, commas_cons_cons, ← List.cons_append, ih, commas_cons_cons,
      List.append_assoc, List.cons_append]

theorem Compound.push_opened (mark : Char) (parts : List (List Char)) (part : List Char) :
    (opened mark parts).push part = opened mark (parts ++ [part]) := by
  cases parts with
  | nil => exact congrArg (fun text => Compound.mk (mark :: text) false) (commas_singleton part).symm
  | cons text texts =>
    exact congrArg (fun text => Compound.mk (mark :: text) false) (commas_append_singleton text part texts).symm

theorem written_float (layout : Layout) {x : Binary64} (finite : x.isFinite = true) :
    Written Phrase (layout.finite x) (.float x) :=
  written_scalar (scalar_finite layout finite)

theorem written_integer (n : Int64) : Written Phrase (Layout.integer n.toInt) (.integer n.toInt) := by
  have upper : n.toInt < Word.limit := n.toInt_lt
  have positive : 0 < Word.limit := by decide
  exact written_scalar (scalar_integer n.le_toInt (by omega))

/-- What is written denotes what goes to the host, whatever the layout of doubles is. -/
theorem related_serializer (layout : Layout) :
    (serializer layout).Related Host.serializer (Written Phrase)
      (fun c items => ∃ texts, c = Compound.opened '[' texts ∧ List.Forall₂ (Written Phrase) texts items)
      (fun c sorted => ∃ texts fields, c = Compound.opened '\x7b' texts ∧ sorted = Host.putFields [] fields ∧
        List.Forall₂ (Written Member) texts fields) where
  unit := written_scalar .null
  bool b := written_scalar (.bool b)
  integer := written_integer
  float _ := written_float layout
  text t := ⟨_, .text t, begins_quote t.chars⟩
  beginSeq _ := ⟨[], rfl, .nil⟩
  element := by
    rintro _ items text h ⟨texts, rfl, all⟩ item
    exact ⟨texts ++ [text], Compound.push_opened _ _ _, List.rel_append all (.cons item .nil)⟩
  endSeq := by
    rintro _ items ⟨texts, rfl, all⟩
    exact written_array all
  beginMap _ := ⟨[], [], rfl, rfl, .nil⟩
  entry := by
    rintro _ _ text h name ⟨texts, fields, rfl, rfl, all⟩ item
    refine ⟨_, fields ++ [(name, h)], Compound.push_opened _ _ _, ?_,
      List.rel_append all (.cons (written_member name item) .nil)⟩
    exact (Fields.putFields_concat [] fields name h).symm
  endMap := by
    rintro _ _ ⟨texts, fields, rfl, rfl, all⟩
    exact written_object all

/-- A value is written and goes to the host, or fails in both ways alike. -/
theorem agree_write (layout : Layout) (store : Store) (v : Value) :
    Agree (Written Phrase) (write layout store v) (v.toHost store) :=
  (related_serializer layout).agree store v

theorem write_cases (layout : Layout) (store : Store) (v : Value) :
    (∃ e, write layout store v = .error e ∧ v.toHost store = .error e) ∨
      ∃ text h, write layout store v = .ok text ∧ v.toHost store = .ok h ∧ Denotes text h ∧ read text = some h := by
  have agree := agree_write layout store v
  generalize write layout store v = written at agree
  generalize v.toHost store = host at agree
  cases agree with
  | error e => exact .inl ⟨e, rfl, rfl⟩
  | @ok text h written =>
    have denotes := written.denotes
    exact .inr ⟨text, h, rfl, rfl, denotes, read_eq_some_iff.2 denotes⟩

end Json

theorem Eval.exec_store (store : Store) : exec Eval.store store = (.ok store, store) := rfl

theorem ValueQuery.exec_toJson (store : Store) (v : Value) (operands : List Value) :
    exec (toJson.run (v :: operands)) store =
      (((Json.write .json store v).mapError Fault.unwritable).map fun cs => .text ⟨cs⟩, store) := by
  rw [ValueQuery.run, exec_bind, Eval.exec_store]
  dsimp only
  cases Json.write .json store v <;> rfl

theorem ValueQuery.exec_toHost (store : Store) (v : Value) (operands : List Value) :
    exec (toHost.run (v :: operands)) store = (((v.toHost store).mapError Fault.error).map .host, store) := by
  rw [ValueQuery.run, exec_bind, Eval.exec_store]
  dsimp only
  cases v.toHost store <;> rfl

/-- A value has a JSON text exactly if it has host data, and the text is well formed and denotes these data; what
has neither is refused with the same message. This holds whatever the layout of doubles is. A reader finds exactly
what a text denotes, and of repeated names in an object the last one counts. -/
theorem toJson_denotes_toHost :
    (∀ (text : List Char) (h : Host), Json.read text = some h ↔ Json.Denotes text h) ∧
    (∀ (store : Store) (v : Value) (operands : List Value),
      (∃ (e : Error) (message : String),
        exec (ValueQuery.toJson.run (v :: operands)) store = (.error (.unwritable e), store) ∧
        exec (ValueQuery.toHost.run (v :: operands)) store = (.error (.error e), store) ∧
        (Fault.unwritable e).report store = .unwritable message ∧
        (Fault.error e).report store = .error e.category (e.category.name ++ ": " ++ message)) ∨
      ∃ (t : Text) (h : Host),
        exec (ValueQuery.toJson.run (v :: operands)) store = (.ok (.text t), store) ∧
        exec (ValueQuery.toHost.run (v :: operands)) store = (.ok (.host h), store) ∧
        Json.Denotes t.chars h ∧ Json.read t.chars = some h) ∧
    ∀ (layout : Layout) (store : Store) (v : Value),
      (∃ e, Json.write layout store v = .error e ∧ v.toHost store = .error e) ∨
      ∃ text h, Json.write layout store v = .ok text ∧ v.toHost store = .ok h ∧
        Json.Denotes text h ∧ Json.read text = some h := by
  refine ⟨fun text h => Json.read_eq_some_iff, ?_, Json.write_cases⟩
  intro store v operands
  rw [ValueQuery.exec_toJson, ValueQuery.exec_toHost]
  rcases Json.write_cases .json store v with ⟨e, refused, refused'⟩ | ⟨text, h, written, host, denotes, back⟩
  · rw [refused, refused']
    exact .inl ⟨e, e.message store, rfl, rfl, rfl, rfl⟩
  · rw [written, host]
    exact .inr ⟨⟨text⟩, h, rfl, rfl, denotes, back⟩

end DynamicValues
