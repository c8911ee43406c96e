import DynamicValues.Error.Message
import DynamicValues.Host.Exchange
import DynamicValues.Proofs.Dict
import DynamicValues.Proofs.Fields
import DynamicValues.Proofs.Rounding

/-!
Exchanging values with the host. Host data come back as they were, but for integers above all words, which
come back as doubles. A value goes out unless a slice or an iterator is met on the way; what comes back for
it is its canonical form.
-/

set_option autoImplicit false

namespace DynamicValues

/-- A text bound to a value. -/
def Fields.entry (f : Text × Value) : Entry Value := ⟨Hash.text f.1.chars, .str f.1, f.2⟩

theorem Fields.finds_entry {s : Text} {f : Text × Value} (h : s ≠ f.1) :
    (Key.ofText s).finds (entry f) = false := by
  have texts : (s == f.1) = false := beq_eq_false_iff_ne.2 h
  rw [Key.finds, Bool.and_eq_false_iff]
  exact .inr texts

section Steps

variable {α : Type} {ser : Serializer α} {store : Store} {v : Value} {a : α}

theorem Value.serializeItems_cons (first : v.serialize ser store = .ok a) (seq : ser.Seq) (xs : List Value) :
    serializeItems ser store seq (v :: xs) = serializeItems ser store (ser.element seq a) xs := by
  rw [serializeItems, first]
  rfl

theorem Value.serializeEntries_cons (first : v.serialize ser store = .ok a) (map : ser.Map) (hash : Int64)
    (key : Value) (es : List (Entry Value)) :
    serializeEntries ser store map (⟨hash, key, v⟩ :: es) =
      serializeEntries ser store (ser.entry map (key.toText store) a) es := by
  rw [serializeEntries, first]
  rfl

end Steps

section Outward

variable (store : Store) {x : Binary64} {xs : List Value} {es : List (Entry Value)}

theorem Value.toHost_float (finite : x.isFinite = true) : (Value.float x).toHost store = .ok (.float x) := by
  rw [toHost, serialize, if_pos finite]
  rfl

theorem Value.toHost_list {items : List Host} (h : serializeItems Host.serializer store [] xs = .ok items) :
    (Value.list xs).toHost store = .ok (.array items) := by
  rw [toHost, serialize]
  exact congrArg (fun outcome => outcome >>= fun items => Except.ok (Host.array items)) h

theorem Value.toHost_dict {fields : List (Text × Host)}
    (h : serializeEntries Host.serializer store [] es = .ok fields) :
    (Value.dict ⟨es⟩).toHost store = .ok (.object fields) := by
  rw [toHost, serialize]
  exact congrArg (fun outcome => outcome >>= fun fields => Except.ok (Host.object fields)) h

end Outward

namespace Host

mutual

/-- Host data as they are exchanged: no integer below the words or from `top` on, no double that is not
finite, and the fields of every object sorted. -/
def Proper (top : Int) : Host → Prop
  | .integer n => -Word.limit ≤ n ∧ n < top
  | .float x => x.isFinite = true
  | .array items => ProperItems top items
  | .object fields => Fields.Sorted fields ∧ ProperFields top fields
  | _ => True

def ProperItems (top : Int) : List Host → Prop
  | [] => True
  | h :: hs => h.Proper top ∧ ProperItems top hs

def ProperFields (top : Int) : List (Text × Host) → Prop
  | [] => True
  | (_, h) :: fields => h.Proper top ∧ ProperFields top fields

end

mutual

/-- The same host data with the nearest double in the place of every integer above the words. -/
def narrow : Host → Host
  | .integer n => if n < Word.limit then .integer n else .float (.ofInt n)
  | .array items => .array (narrowItems items)
  | .object fields => .object (narrowFields fields)
  | h => h

def narrowItems : List Host → List Host
  | [] => []
  | h :: hs => h.narrow :: narrowItems hs

def narrowFields : List (Text × Host) → List (Text × Host)
  | [] => []
  | (name, h) :: fields => (name, h.narrow) :: narrowFields fields

end

theorem properFields_iff {top : Int} {fields : List (Text × Host)} :
    ProperFields top fields ↔ ∀ f ∈ fields, f.2.Proper top := by
  induction fields with
  | nil => simp [ProperFields]
  | cons f fields ih => rw [ProperFields, ih, List.forall_mem_cons]

theorem narrowFields_eq_map (fields : List (Text × Host)) :
    narrowFields fields = fields.map fun f => (f.1, f.2.narrow) := by
  induction fields with
  | nil => rfl
  | cons f fields ih => rw [narrowFields, ih, List.map_cons]

mutual

/-- Only integers above the words change. -/
theorem narrow_eq_self : ∀ h : Host, h.Proper Word.limit → h.narrow = h
  | .null, _ => rfl
  | .bool _, _ => rfl
  | .integer _, proper => if_pos proper.2
  | .float _, _ => rfl
  | .string _, _ => rfl
  | .array items, proper => congrArg Host.array (narrowItems_eq_self items proper)
  | .object fields, proper => congrArg Host.object (narrowFields_eq_self fields proper.2)

theorem narrowItems_eq_self : ∀ hs : List Host, ProperItems Word.limit hs → narrowItems hs = hs
  | [], _ => rfl
  | h :: hs, proper => congrArg₂ List.cons (narrow_eq_self h proper.1) (narrowItems_eq_self hs proper.2)

theorem narrowFields_eq_self : ∀ fields : List (Text × Host), ProperFields Word.limit fields →
    narrowFields fields = fields
  | [], _ => rfl
  | (name, h) :: fields, proper => by
    rw [narrowFields, narrow_eq_self h proper.1, narrowFields_eq_self fields proper.2]

end

/-- Fields of different names are bound one after the other. -/
theorem toDict_eq {fields : List (Text × Host)} {d : Dict Value}
    (distinct : fields.Pairwise fun f g => f.1 ≠ g.1)
    (fresh : ∀ f ∈ fields, ∀ e ∈ d.entries, (Key.ofText f.1).finds e = false) :
    toDict d fields = ⟨d.entries ++ fields.map fun f => Fields.entry (f.1, f.2.toValue)⟩ := by
  induction fields generalizing d with
  | nil => simp [toDict]
  | cons f fields ih =>
    obtain ⟨name, h⟩ := f
    rw [List.pairwise_cons] at distinct
    rw [List.forall_mem_cons] at fresh
    have put : d.put (.ofText name) h.toValue = ⟨d.entries ++ [Fields.entry (name, h.toValue)]⟩ :=
      congrArg Dict.mk (Dict.putEntry_of_misses fresh.1 _)
    rw [toDict, put, ih distinct.2]
    · simp
    · intro g hg e he
      rcases List.mem_append.1 he with old | new
      · exact fresh.2 g hg e old
      · rw [List.mem_singleton.1 new]
        exact Fields.finds_entry (distinct.1 g hg).symm

theorem toValue_object {fields : List (Text × Host)} (sorted : Fields.Sorted fields) :
    (object fields).toValue = .dict ⟨fields.map fun f => Fields.entry (f.1, f.2.toValue)⟩ := by
  rw [toValue, toDict_eq sorted.distinct (by simp [Dict.empty])]
  simp [Dict.empty]

theorem nearest_ofInt_of_limit_le {n : Int} (above : Word.limit ≤ n) (bound : n < 2 * Word.limit) :
    (Binary64.ofInt n).Nearest n := by
  unfold Word.limit at *
  obtain ⟨k, rfl⟩ := Int.eq_ofNat_of_zero_le (show 0 ≤ n by omega)
  exact Binary64.nearest_ofInt (by omega) (by omega)

theorem toHost_ofInteger (store : Store) {n : Int} (lower : -Word.limit ≤ n) (upper : n < 2 * Word.limit) :
    (ofInteger n).toHost store = .ok (integer n).narrow := by
  rw [ofInteger, narrow]
  by_cases word : n < Word.limit
  · rw [if_pos word]
    cases found : Word.ofInt? n with
    | none =>
      have := Word.ofInt?_eq_none.1 found
      omega
    | some w => exact congrArg (fun n => Except.ok (integer n)) (Word.toInt_of_ofInt? found)
  · have finite := (nearest_ofInt_of_limit_le (Int.not_lt.1 word) upper).finite
    rw [if_neg word, Word.ofInt?_eq_none.2 (.inr (Int.not_lt.1 word))]
    exact Value.toHost_float store finite

/-- Fields that are sorted stay as they are when they are put in one after the other. -/
theorem putFields_narrowFields {fields : List (Text × Host)} (sorted : Fields.Sorted fields) :
    putFields [] (narrowFields fields) = narrowFields fields := by
  have kept : Fields.Sorted (narrowFields fields) := by
    rw [narrowFields_eq_map, Fields.Sorted, List.pairwise_map]
    exact sorted
  rw [Fields.putFields_eq, Fields.settle_of_sorted kept]

mutual

/-- What comes back from a value that stands for host data. -/
theorem toHost_toValue (store : Store) {top : Int} (room : top ≤ 2 * Word.limit) : ∀ h : Host,
    h.Proper top → h.toValue.toHost store = .ok h.narrow
  | .null, _ => rfl
  | .bool _, _ => rfl
  | .integer n, proper => toHost_ofInteger store proper.1 (Int.lt_of_lt_of_le proper.2 room)
  | .float _, proper => Value.toHost_float store proper
  | .string _, _ => rfl
  | .array items, proper => Value.toHost_list store (serializeItems_toValues store room [] items proper)
  | .object fields, proper => by
    have built := serializeEntries_toValue store room [] fields proper.2
    rw [putFields_narrowFields proper.1] at built
    rw [toValue_object proper.1]
    exact Value.toHost_dict store built

theorem serializeItems_toValues (store : Store) {top : Int} (room : top ≤ 2 * Word.limit) (before : List Host) :
    ∀ hs : List Host, ProperItems top hs →
      Value.serializeItems serializer store before (toValues hs) = .ok (before ++ narrowItems hs)
  | [], _ => congrArg Except.ok (List.append_nil before).symm
  | h :: hs, proper => by
    have first := toHost_toValue store room h proper.1
    have rest := serializeItems_toValues store room (before ++ [h.narrow]) hs proper.2
    rw [List.append_assoc] at rest
    exact (Value.serializeItems_cons first before _).trans rest

theorem serializeEntries_toValue (store : Store) {top : Int} (room : top ≤ 2 * Word.limit)
    (before : List (Text × Host)) : ∀ fields : List (Text × Host), ProperFields top fields →
      Value.serializeEntries serializer store before (fields.map fun f => Fields.entry (f.1, f.2.toValue)) =
        .ok (putFields before (narrowFields fields))
  | [], _ => rfl
  | (name, h) :: fields, proper => by
    have first := toHost_toValue store room h proper.1
    have rest := serializeEntries_toValue store room (insertField name h.narrow before) fields proper.2
    exact (Value.serializeEntries_cons first before _ _ _).trans rest

end

/-- Host data without integers above the words come back as they were. -/
theorem toHost_toValue_of_words (store : Store) {h : Host} (proper : h.Proper Word.limit) :
    h.toValue.toHost store = .ok h := by
  have back := toHost_toValue store (by decide) h proper
  rwa [narrow_eq_self h proper] at back

/-- An array in an object: an integer above the words, the negative zero and an integer among the words. -/
def sample : Host :=
  .object [(.ofString "a", .array [.integer 0x8000000000000001, .float ⟨0x8000000000000000⟩]),
    (.ofString "b", .integer (-5))]

end Host

/-- Host data come back as they were, with the nearest doubles for the integers above the words. -/
theorem host_round_trip (store : Store) :
    (∀ n : Int, Word.limit ≤ n → n < 2 * Word.limit → (Binary64.ofInt n).Nearest n) ∧
    (∀ h : Host, h.Proper (2 * Word.limit) → h.toValue.toHost store = .ok h.narrow) ∧
    ∀ h : Host, h.Proper Word.limit → h.toValue.toHost store = .ok h := by
  refine ⟨?_, ?_, ?_⟩
  · intro n above bound
    exact Host.nearest_ofInt_of_limit_le above bound
  · intro h proper
    exact Host.toHost_toValue store Int.le_rfl h proper
  · intro h proper
    exact Host.toHost_toValue_of_words store proper

theorem sample_round_trip :
    (Binary64.ofInt 0x8000000000000001).Nearest 0x8000000000000001 ∧
    Host.sample.toValue.toHost .empty = .ok (.object
      [(.ofString "a", .array [.float ⟨0x43e0000000000000⟩, .float ⟨0x8000000000000000⟩]),
        (.ofString "b", .integer (-5))]) ∧
    (Host.object [(.ofString "b", .integer (-5))]).toValue.toHost .empty =
      .ok (.object [(.ofString "b", .integer (-5))]) := by
  obtain ⟨nearest, wide, words⟩ := host_round_trip .empty
  have rounds : Binary64.ofInt 0x8000000000000001 = ⟨0x43e0000000000000⟩ := by decide +kernel
  refine ⟨nearest _ (by decide) (by decide), ?_, ?_⟩
  · have proper : Host.sample.Proper (2 * Word.limit) := by
      simp [Host.sample, Host.Proper, Host.ProperFields, Host.ProperItems, Word.limit]
      decide +kernel
    rw [wide _ proper, ← rounds]
    rfl
  · apply words
    simp [Host.Proper, Host.ProperFields, Word.limit]

end DynamicValues
