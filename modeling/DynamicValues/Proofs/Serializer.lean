import DynamicValues.Host.Serializer

/-!
Two formats side by side. If the operations of two formats agree, then every value goes into both or into neither,
and what comes out agrees; the errors are the same in any case.
-/

set_option autoImplicit false

namespace DynamicValues

/-- Two outcomes that fail with the same error, or give related results. -/
inductive Agree {α β : Type} (R : α → β → Prop) : Except Error α → Except Error β → Prop where
  | error (e : Error) : Agree R (.error e) (.error e)
  | ok {a : α} {b : β} : R a b → Agree R (.ok a) (.ok b)

theorem Agree.bind {α β γ δ : Type} {R : α → β → Prop} {S : γ → δ → Prop} {x : Except Error α}
    {y : Except Error β} {f : α → Except Error γ} {g : β → Except Error δ} (agree : Agree R x y)
    (next : ∀ a b, R a b → Agree S (f a) (g b)) : Agree S (x >>= f) (y >>= g) := by
  cases agree with
  | error e => exact .error e
  | ok related => exact next _ _ related

/-- The operations of two formats keep to relations between what they make, and between what they are building. -/
structure Serializer.Related {α β : Type} (ser : Serializer α) (ser' : Serializer β) (R : α → β → Prop)
    (S : ser.Seq → ser'.Seq → Prop) (M : ser.Map → ser'.Map → Prop) : Prop where
  unit : R ser.unit ser'.unit
  bool : ∀ b, R (ser.bool b) (ser'.bool b)
  integer : ∀ n, R (ser.integer n) (ser'.integer n)
  float : ∀ x, x.isFinite = true → R (ser.float x) (ser'.float x)
  text : ∀ t, R (ser.text t) (ser'.text t)
  beginSeq : ∀ n, S (ser.beginSeq n) (ser'.beginSeq n)
  element : ∀ {s s' a b}, S s s' → R a b → S (ser.element s a) (ser'.element s' b)
  endSeq : ∀ {s s'}, S s s' → R (ser.endSeq s) (ser'.endSeq s')
  beginMap : ∀ n, M (ser.beginMap n) (ser'.beginMap n)
  entry : ∀ {m m' a b} (name : Text), M m m' → R a b → M (ser.entry m name a) (ser'.entry m' name b)
  endMap : ∀ {m m'}, M m m' → R (ser.endMap m) (ser'.endMap m')

namespace Serializer.Related

variable {α β : Type} {ser : Serializer α} {ser' : Serializer β} {R : α → β → Prop}
  {S : ser.Seq → ser'.Seq → Prop} {M : ser.Map → ser'.Map → Prop}

mutual

theorem agree (related : ser.Related ser' R S M) (store : Store) : ∀ v : Value,
    Agree R (v.serialize ser store) (v.serialize ser' store)
  | .none => .ok related.unit
  | .bool b => .ok (related.bool b)
  | .int n => .ok (related.integer n)
  | .float x => by
    rw [Value.serialize, Value.serialize]
    cases finite : x.isFinite with
    | true => exact .ok (related.float x finite)
    | false => exact .ok related.unit
  | .str t => .ok (related.text t)
  | .tuple _ xs => (agree_items related store xs (related.beginSeq _)).bind fun _ _ built => .ok (related.endSeq built)
  | .list xs => (agree_items related store xs (related.beginSeq _)).bind fun _ _ built => .ok (related.endSeq built)
  | .dict ⟨es⟩ =>
    (agree_entries related store es (related.beginMap _)).bind fun _ _ built => .ok (related.endMap built)
  | .slice _ => .error _
  | .iter _ => .error _

theorem agree_items (related : ser.Related ser' R S M) (store : Store) : ∀ (xs : List Value) {s s'}, S s s' →
    Agree S (Value.serializeItems ser store s xs) (Value.serializeItems ser' store s' xs)
  | [], _, _, built => .ok built
  | x :: xs, _, _, built => (agree related store x).bind fun _ _ item =>
    agree_items related store xs (related.element built item)

theorem agree_entries (related : ser.Related ser' R S M) (store : Store) :
    ∀ (es : List (Entry Value)) {m m'}, M m m' →
      Agree M (Value.serializeEntries ser store m es) (Value.serializeEntries ser' store m' es)
  | [], _, _, built => .ok built
  | ⟨_, key, value⟩ :: es, _, _, built => (agree related store value).bind fun _ _ item =>
    agree_entries related store es (related.entry (key.toText store) built item)

end

end Serializer.Related
end DynamicValues
