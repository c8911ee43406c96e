import DynamicValues.Proofs.Exchange

/-!
Canonical forms. On its way to the host a value is walked from left to right, without its keys; the first
slice or iterator that is met ends the walk. What comes back has lists for tuples, nothing for doubles that
are not finite, and for each dict the texts of its keys in order, each with its last value.
-/

set_option autoImplicit false

namespace DynamicValues

namespace Value

/-- Slices and iterators have no host form. -/
def lacksHost : Value → Bool
  | .slice _ | .iter _ => true
  | _ => false

/-- The parts that go to the host as they are: items, and the values of dicts. -/
def hostParts : Value → List Value
  | .tuple _ xs => xs
  | .list xs => xs
  | .dict d => d.values
  | _ => []

mutual

/-- The values met on the way to the host, from left to right, each one before its parts. -/
def visited : Value → List Value
  | .tuple i xs => .tuple i xs :: visitedItems xs
  | .list xs => .list xs :: visitedItems xs
  | .dict ⟨es⟩ => .dict ⟨es⟩ :: visitedEntries es
  | v => [v]

def visitedItems : List Value → List Value
  | [] => []
  | x :: xs => visited x ++ visitedItems xs

def visitedEntries : List (Entry Value) → List Value
  | [] => []
  | ⟨_, _, value⟩ :: es => visited value ++ visitedEntries es

end

theorem visitedItems_eq (xs : List Value) : visitedItems xs = xs.flatMap visited := by
  induction xs with
  | nil => rfl
  | cons x xs ih => rw [visitedItems, ih, List.flatMap_cons]

theorem visitedEntries_eq (es : List (Entry Value)) :
    visitedEntries es = (es.map Entry.value).flatMap visited := by
  induction es with
  | nil => rfl
  | cons e es ih => rw [visitedEntries, ih, List.map_cons, List.flatMap_cons]

theorem visited_eq (v : Value) : v.visited = v :: v.hostParts.flatMap visited := by
  cases v with
  | tuple i xs => exact congrArg _ (visitedItems_eq xs)
  | list xs => exact congrArg _ (visitedItems_eq xs)
  | dict d => exact congrArg _ (visitedEntries_eq d.entries)
  | _ => rfl

theorem hostParts_subset (v : Value) : v.hostParts ⊆ v.parts := by
  cases v with
  | dict d =>
    intro x hx
    obtain ⟨e, he, rfl⟩ := List.mem_map.1 hx
    exact value_mem_parts he
  | _ => exact List.Subset.refl _

theorem mem_visited {x v : Value} : x ∈ v.visited ↔ Within hostParts x v := by
  constructor
  · intro met
    induction v using induction_on_parts with
    | step v ih =>
      rw [visited_eq, List.mem_cons, List.mem_flatMap] at met
      rcases met with rfl | ⟨part, mem, inner⟩
      · exact .here
      · exact .deeper mem (ih part (hostParts_subset v mem) inner)
  · intro within
    induction within with
    | here =>
      rw [visited_eq]
      exact List.mem_cons_self
    | deeper mem _ ih =>
      rw [visited_eq]
      exact List.mem_cons_of_mem _ (List.mem_flatMap.2 ⟨_, mem, ih⟩)

end Value

/-- The outcome of a walk that ends at `first`, or runs to its end if there is none. -/
inductive Stops {α : Type} : Option Value → Except Error α → Prop
  | met (x : Value) : Stops (some x) (.error (.noHostForm x.kind))
  | done (a : α) : Stops none (.ok a)

namespace Stops

variable {α β : Type} {first second : Option Value} {outcome : Except Error α}

theorem bind {f : α → Except Error β} (h : Stops first outcome) (hf : ∀ a, Stops second (f a)) :
    Stops (first.or second) (outcome >>= f) := by
  cases h with
  | met x => exact .met x
  | done a => exact hf a

theorem map {f : α → β} (h : Stops first outcome) : Stops first (outcome >>= fun a => pure (f a)) := by
  cases h with
  | met x => exact .met x
  | done a => exact .done (f a)

theorem error_iff (h : Stops first outcome) {e : Error} :
    outcome = .error e ↔ ∃ x, first = some x ∧ e = .noHostForm x.kind := by
  cases h with
  | met x => simp [eq_comm]
  | done a => simp

end Stops

namespace Value

section Formats

variable {α : Type} (ser : Serializer α) (store : Store)

mutual

/-- Every format stops at the same value. -/
theorem stops_serialize : ∀ v : Value, Stops (v.visited.find? lacksHost) (v.serialize ser store)
  | .none => .done _
  | .bool _ => .done _
  | .int _ => .done _
  | .float _ => .done _
  | .str _ => .done _
  | .tuple _ xs => (stops_serializeItems xs _).map
  | .list xs => (stops_serializeItems xs _).map
  | .dict ⟨es⟩ => (stops_serializeEntries es _).map
  | .slice s => .met (.slice s)
  | .iter i => .met (.iter i)

theorem stops_serializeItems : ∀ (xs : List Value) (seq : ser.Seq),
    Stops ((visitedItems xs).find? lacksHost) (serializeItems ser store seq xs)
  | [], _ => .done _
  | x :: xs, _ => by
    rw [visitedItems, List.find?_append]
    exact (stops_serialize x).bind fun _ => stops_serializeItems xs _

theorem stops_serializeEntries : ∀ (es : List (Entry Value)) (map : ser.Map),
    Stops ((visitedEntries es).find? lacksHost) (serializeEntries ser store map es)
  | [], _ => .done _
  | ⟨_, _, value⟩ :: es, _ => by
    rw [visitedEntries, List.find?_append]
    exact (stops_serialize value).bind fun _ => stops_serializeEntries es _

end

end Formats

mutual

/-- The value that comes back from the host for a value. -/
def canonical (store : Store) : Value → Value
  | .float x => if x.isFinite then .float x else .none
  | .tuple _ xs => .list (canonicalItems store xs)
  | .list xs => .list (canonicalItems store xs)
  | .dict ⟨es⟩ => .dict ⟨(Fields.settle (canonicalFields store es)).map Fields.entry⟩
  | v => v

def canonicalItems (store : Store) : List Value → List Value
  | [] => []
  | x :: xs => canonical store x :: canonicalItems store xs

def canonicalFields (store : Store) : List (Entry Value) → List (Text × Value)
  | [] => []
  | ⟨_, key, value⟩ :: es => (key.toText store, canonical store value) :: canonicalFields store es

end

theorem gives_array {store : Store} {outcome : Except Error (List Host)} {xs : List Value}
    (h : Gives outcome fun items => ∃ hs, items = [] ++ hs ∧ Host.ProperItems Word.limit hs ∧
      Host.toValues hs = canonicalItems store xs) :
    Gives (do return Host.array (← outcome)) fun h => h.Proper Word.limit ∧
      h.toValue = .list (canonicalItems store xs) := by
  refine h.bind fun items built => .ok ?_
  obtain ⟨hs, rfl, proper, values⟩ := built
  exact ⟨proper, congrArg Value.list values⟩

theorem gives_object {store : Store} {outcome : Except Error (List (Text × Host))} {es : List (Entry Value)}
    (h : Gives outcome fun sorted => ∃ fields, sorted = Host.putFields [] fields ∧
      Host.ProperFields Word.limit fields ∧ (fields.map fun f => (f.1, f.2.toValue)) = canonicalFields store es) :
    Gives (do return Host.object (← outcome)) fun h => h.Proper Word.limit ∧
      h.toValue = .dict ⟨(Fields.settle (canonicalFields store es)).map Fields.entry⟩ := by
  refine h.bind fun sorted built => .ok ?_
  obtain ⟨fields, rfl, proper, values⟩ := built
  have ascending := Fields.sorted_settle fields
  rw [Fields.putFields_eq]
  constructor
  · refine ⟨ascending, Host.properFields_iff.2 ?_⟩
    intro f hf
    obtain ⟨before, after, rfl, -⟩ := Fields.mem_settle.1 hf
    exact Host.properFields_iff.1 proper f (by simp)
  · rw [Host.toValue_object ascending, ← values, Fields.settle_map, List.map_map]
    rfl

mutual

/-- What goes to the host stands for the canonical form, and has no integers above the words. -/
theorem gives_canonical (store : Store) : ∀ v : Value,
    Gives (v.toHost store) fun h => h.Proper Word.limit ∧ h.toValue = v.canonical store
  | .none => .ok ⟨trivial, rfl⟩
  | .bool _ => .ok ⟨trivial, rfl⟩
  | .int n => by
    refine .ok ⟨⟨n.le_toInt, n.toInt_lt⟩, ?_⟩
    change Host.ofInteger n.toInt = .int n
    rw [Host.ofInteger, Word.ofInt?_toInt]
  | .float x => by
    rw [toHost, serialize]
    refine .ok ?_
    cases finite : x.isFinite with
    | true => exact ⟨finite, by simp [Host.serializer, Host.toValue, canonical, finite]⟩
    | false => exact ⟨trivial, by simp [Host.serializer, Host.toValue, canonical, finite]⟩
  | .str _ => .ok ⟨trivial, rfl⟩
  | .tuple _ xs => gives_array (gives_canonicalItems store xs [])
  | .list xs => gives_array (gives_canonicalItems store xs [])
  | .dict ⟨es⟩ => gives_object (gives_canonicalFields store es [])
  | .slice _ => .error _
  | .iter _ => .error _

theorem gives_canonicalItems (store : Store) : ∀ (xs : List Value) (before : List Host),
    Gives (serializeItems Host.serializer store before xs) fun items => ∃ hs, items = before ++ hs ∧
      Host.ProperItems Word.limit hs ∧ Host.toValues hs = canonicalItems store xs
  | [], before => .ok ⟨[], (List.append_nil before).symm, trivial, rfl⟩
  | x :: xs, before => by
    refine (gives_canonical store x).bind fun h head => ?_
    intro items ran
    obtain ⟨hs, rfl, proper, values⟩ := gives_canonicalItems store xs (before ++ [h]) items ran
    refine ⟨h :: hs, (List.append_cons before h hs).symm, ⟨head.1, proper⟩, ?_⟩
    rw [Host.toValues, head.2, values, canonicalItems]

theorem gives_canonicalFields (store : Store) : ∀ (es : List (Entry Value)) (before : List (Text × Host)),
    Gives (serializeEntries Host.serializer store before es) fun sorted => ∃ fields,
      sorted = Host.putFields before fields ∧ Host.ProperFields Word.limit fields ∧
      (fields.map fun f => (f.1, f.2.toValue)) = canonicalFields store es
  | [], _ => .ok ⟨[], rfl, trivial, rfl⟩
  | ⟨_, key, value⟩ :: es, before => by
    refine (gives_canonical store value).bind fun h head => ?_
    intro sorted ran
    obtain ⟨fields, rfl, proper, values⟩ :=
      gives_canonicalFields store es (Host.insertField (key.toText store) h before) sorted ran
    refine ⟨(key.toText store, h) :: fields, rfl, ⟨head.1, proper⟩, ?_⟩
    rw [List.map_cons, head.2, values, canonicalFields]

end

end Value

/-- A value has no host form exactly if a slice or an iterator is met on the way, and the error names the
first one; otherwise its canonical form comes back, which has the same host form. -/
theorem toHost_then_canonical (store : Store) (v : Value) :
    ((∃ e, v.toHost store = .error e) ↔ ∃ x, Value.Within Value.hostParts x v ∧ x.lacksHost = true) ∧
    (∀ e, v.toHost store = .error e → e.category = .typeError ∧
      ∃ x, v.visited.find? Value.lacksHost = some x ∧
        e.message store = "'" ++ x.kind.name ++ "' object has no host representation") ∧
    ∀ h, v.toHost store = .ok h →
      h.toValue = v.canonical store ∧ ∀ later : Store, h.toValue.toHost later = .ok h := by
  have stops : Stops (v.visited.find? Value.lacksHost) (v.toHost store) := v.stops_serialize Host.serializer store
  refine ⟨?_, ?_, ?_⟩
  · simp only [stops.error_iff, ← Value.mem_visited]
    constructor
    · rintro ⟨e, x, found, rfl⟩
      exact ⟨x, List.mem_of_find?_eq_some found, List.find?_some found⟩
    · rintro ⟨x, met, lacks⟩
      obtain ⟨y, found⟩ := Option.isSome_iff_exists.1 (List.find?_isSome.2 ⟨x, met, lacks⟩)
      exact ⟨_, y, found, rfl⟩
  · intro e failed
    obtain ⟨x, found, rfl⟩ := stops.error_iff.1 failed
    exact ⟨rfl, x, found, rfl⟩
  · intro h out
    obtain ⟨proper, value⟩ := Value.gives_canonical store v h out
    exact ⟨value, fun later => Host.toHost_toValue_of_words later proper⟩

namespace Value

/-- Two keys with one text, and a key that comes before them in the order of texts. -/
def crossed : Value :=
  .dict ⟨[⟨1, .int 1, .tuple 0 [.int 4]⟩, Fields.entry (.ofString "1", .bool true),
    Fields.entry (.ofString "0", .tuple 1 [.none])]⟩

/-- A slice inside a tuple, before an iterator. -/
def refused : Value := .list [.tuple 0 [.int 1, .slice ⟨Option.none, Option.none, Option.none⟩], .iter 0]

end Value

theorem crossed_canonical :
    Value.crossed.canonical .empty = .dict ⟨[Fields.entry (.ofString "0", .list [.none]),
        Fields.entry (.ofString "1", .bool true)]⟩ ∧
      (Value.crossed.canonical .empty).toHost .empty = Value.crossed.toHost .empty ∧
      (∃ x, Value.Within Value.hostParts x Value.refused ∧ x.lacksHost = true) ∧
      ∃ e, Value.refused.toHost .empty = .error e ∧
        e.message .empty = "'slice' object has no host representation" := by
  obtain ⟨-, -, returns⟩ := toHost_then_canonical .empty Value.crossed
  obtain ⟨fails, names, -⟩ := toHost_then_canonical .empty Value.refused
  have out : Value.crossed.toHost .empty =
      .ok (.object [(.ofString "0", .array [.null]), (.ofString "1", .bool true)]) := rfl
  obtain ⟨back, again⟩ := returns _ out
  have failed : Value.refused.toHost .empty = .error (.noHostForm .slice) := rfl
  refine ⟨back.symm, ?_, fails.1 ⟨_, failed⟩, _, failed, ?_⟩
  · rw [← back, again, out]
  · obtain ⟨-, x, found, message⟩ := names _ failed
    rw [message]
    cases found
    rfl

end DynamicValues
