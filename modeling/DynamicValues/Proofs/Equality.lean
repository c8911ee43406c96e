import DynamicValues.Proofs.Order
import DynamicValues.Proofs.World
import Mathlib.Data.List.Forall2
import Mathlib.Data.List.Nodup
import Mathlib.Data.List.Perm.Subperm

/-!
Equality of sound values is symmetric and transitive, and a value is equal to its copy unless a NaN is
among what is copied. Symmetry for dicts is a counting argument: the keys of one dict find pairwise
different bindings in the other, which has no more of them.
-/

set_option autoImplicit false

namespace DynamicValues

/-- Each entry of the first list is one of the second, with an equal value. -/
def Entry.FoundIn (fs es : List (Entry Value)) : Prop :=
  ∀ e ∈ es, ∃ f, fs.find? e.asKey.finds = some f ∧ e.value == f.value

namespace Value

/-- One step of equality, down to the equality of parts. -/
inductive Same : Value → Value → Prop
  | none : Same .none .none
  | number {a b : Value} {x y : Number} {place : Int} : a.number? = some x → b.number? = some y →
      x.units? = some place → y.units? = some place → Same a b
  | text (t : Text) : Same (.str t) (.str t)
  | shared (i : Nat) (xs ys : List Value) : Same (.tuple i xs) (.tuple i ys)
  | tuple {i j : Nat} {xs ys : List Value} : List.Forall₂ (fun x y => x == y) xs ys →
      Same (.tuple i xs) (.tuple j ys)
  | list {xs ys : List Value} : List.Forall₂ (fun x y => x == y) xs ys → Same (.list xs) (.list ys)
  | dict {d d' : Dict Value} : d.entries.length = d'.entries.length →
      Entry.FoundIn d'.entries d.entries → Same (.dict d) (.dict d')
  | slice (s : Slice) : Same (.slice s) (.slice s)
  | iter (i : Nat) : Same (.iter i) (.iter i)

theorem beqItems_iff {xs ys : List Value} :
    beqItems xs ys = true ↔ List.Forall₂ (fun x y => x == y) xs ys := by
  induction xs generalizing ys with
  | nil => cases ys <;> simp [beqItems]
  | cons x xs ih =>
    cases ys with
    | nil => simp [beqItems]
    | cons y ys =>
      rw [beqItems, Bool.and_eq_true, ih, List.forall₂_cons]
      rfl

theorem forall₂_imp_of_mem {α β : Type} {R S : α → β → Prop} {xs : List α} {ys : List β}
    (imp : ∀ x ∈ xs, ∀ y ∈ ys, R x y → S x y) (h : List.Forall₂ R xs ys) : List.Forall₂ S xs ys := by
  induction h with
  | nil => exact .nil
  | cons head _ ih =>
    refine .cons (imp _ (by simp) _ (by simp) head) (ih ?_)
    intro x hx y hy
    exact imp x (by simp [hx]) y (by simp [hy])

theorem beqEntries_iff {es fs : List (Entry Value)} : beqEntries es fs = true ↔ Entry.FoundIn fs es := by
  induction es with
  | nil => simp [beqEntries, Entry.FoundIn]
  | cons e es ih =>
    obtain ⟨hash, key, value⟩ := e
    rw [beqEntries, Bool.and_eq_true, ih, Entry.FoundIn, Entry.FoundIn, List.forall_mem_cons]
    apply and_congr_left'
    have finds : (fun f : Entry Value => hash == f.hash && beq key f.key) =
        (Entry.asKey ⟨hash, key, value⟩).finds := rfl
    rw [finds]
    cases fs.find? (Entry.asKey ⟨hash, key, value⟩).finds with
    | none => simp
    | some f =>
      simp only [Option.some.injEq, exists_eq_left']
      rfl

theorem beq_iff_of_number {a b : Value} {x : Number} (ha : a.number? = some x) :
    (a == b) = true ↔ ∃ y place, b.number? = some y ∧ x.units? = some place ∧ y.units? = some place := by
  have scalar : (a == b) = sameNumber a b := by cases a <;> cases ha <;> rfl
  rw [scalar, sameNumber, ha]
  cases hb : b.number? with
  | none => simp
  | some y => simp [Number.beq_iff]

theorem same_of_number {a b : Value} {x : Number} (ha : a.number? = some x) (h : (a == b) = true) :
    Same a b := by
  obtain ⟨y, place, hb, hx, hy⟩ := (beq_iff_of_number ha).1 h
  exact .number ha hb hx hy

theorem same_of_beq {a b : Value} (h : (a == b) = true) : Same a b := by
  cases a with
  | none => cases b with
    | none => exact .none
    | _ => cases h
  | bool x => exact same_of_number rfl h
  | int n => exact same_of_number rfl h
  | float x => exact same_of_number rfl h
  | str s => cases b with
    | str t =>
      have texts : s = t := eq_of_beq h
      exact texts ▸ .text s
    | _ => cases h
  | tuple i xs => cases b with
    | tuple j ys =>
      have either : (i == j || beqItems xs ys) = true := h
      rcases Bool.or_eq_true_iff.1 either with storages | items
      · have storage : i = j := eq_of_beq storages
        exact storage ▸ .shared i xs ys
      · exact .tuple (beqItems_iff.1 items)
    | _ => cases h
  | list xs => cases b with
    | list ys => exact .list (beqItems_iff.1 h)
    | _ => cases h
  | dict d => cases b with
    | dict d' =>
      have both : (d.entries.length == d'.entries.length && beqEntries d.entries d'.entries) = true := h
      obtain ⟨lengths, found⟩ := Bool.and_eq_true_iff.1 both
      exact .dict (eq_of_beq lengths) (beqEntries_iff.1 found)
    | _ => cases h
  | slice s => cases b with
    | slice t =>
      have slices : s = t := eq_of_beq h
      exact slices ▸ .slice s
    | _ => cases h
  | iter i => cases b with
    | iter j =>
      have cursors : i = j := eq_of_beq h
      exact cursors ▸ .iter i
    | _ => cases h

theorem beq_of_same {a b : Value} (h : Same a b) : (a == b) = true := by
  cases h with
  | none => rfl
  | number ha hb hx hy => exact (beq_iff_of_number ha).2 ⟨_, _, hb, hx, hy⟩
  | text t => exact beq_self_eq_true t
  | shared i xs ys =>
    change (i == i || beqItems xs ys) = true
    simp
  | @tuple i j xs ys items =>
    change (i == j || beqItems xs ys) = true
    rw [beqItems_iff.2 items, Bool.or_true]
  | list items => exact beqItems_iff.2 items
  | dict lengths found => exact Bool.and_eq_true_iff.2 ⟨beq_iff_eq.2 lengths, beqEntries_iff.2 found⟩
  | slice s => exact beq_self_eq_true s
  | iter i => exact beq_self_eq_true i

theorem beq_iff_same {a b : Value} : (a == b) = true ↔ Same a b := ⟨same_of_beq, beq_of_same⟩

theorem finds_iff {e f : Entry Value} :
    e.asKey.finds f = true ↔ e.hash = f.hash ∧ (e.key == f.key) = true := by
  simp [Key.finds, Entry.asKey]

/-- Values among which equality is symmetric and transitive. -/
structure Tame (small : Value → Prop) : Prop where
  symm : ∀ a b, small a → small b → (a == b) = true → (b == a) = true
  trans : ∀ a b c, small a → small b → small c → (a == b) = true → (b == c) = true → (a == c) = true

namespace Tame

variable {small : Value → Prop} (tame : Tame small)
include tame

theorem items_symm {xs ys : List Value} (hx : ∀ x ∈ xs, small x) (hy : ∀ y ∈ ys, small y)
    (h : List.Forall₂ (fun x y => x == y) xs ys) : List.Forall₂ (fun x y => x == y) ys xs :=
  forall₂_imp_of_mem (fun y memY x memX same => tame.symm x y (hx x memX) (hy y memY) same) h.flip

theorem items_trans {xs ys zs : List Value} (hx : ∀ x ∈ xs, small x) (hy : ∀ y ∈ ys, small y)
    (hz : ∀ z ∈ zs, small z) (hxy : List.Forall₂ (fun x y => x == y) xs ys)
    (hyz : List.Forall₂ (fun x y => x == y) ys zs) : List.Forall₂ (fun x y => x == y) xs zs := by
  induction hxy generalizing zs with
  | nil => exact hyz
  | cons head _ ih =>
    cases hyz with
    | cons head' tail' =>
      simp only [List.forall_mem_cons] at hx hy hz
      exact .cons (tame.trans _ _ _ hx.1 hy.1 hz.1 head head') (ih hx.2 hy.2 hz.2 tail')

theorem finds_symm {e f : Entry Value} (he : small e.key) (hf : small f.key) (h : e.asKey.finds f = true) :
    f.asKey.finds e = true := by
  rw [finds_iff] at *
  exact ⟨h.1.symm, tame.symm _ _ he hf h.2⟩

theorem finds_trans {e f g : Entry Value} (he : small e.key) (hf : small f.key) (hg : small g.key)
    (hef : e.asKey.finds f = true) (hfg : f.asKey.finds g = true) : e.asKey.finds g = true := by
  rw [finds_iff] at *
  exact ⟨hef.1.trans hfg.1, tame.trans _ _ _ he hf hg hef.2 hfg.2⟩

/-- Among entries none of which finds a later one, an entry finds at most itself. -/
theorem eq_of_finds {es : List (Entry Value)} (distinct : Entry.Distinct es)
    (keys : ∀ e ∈ es, small e.key) {e f : Entry Value} (he : e ∈ es) (hf : f ∈ es)
    (h : e.asKey.finds f = true) : e = f := by
  have forward : es.Pairwise fun a b => a.asKey.finds b = true → a = b :=
    distinct.imp fun apart found => absurd found apart
  have backward : es.Pairwise (flip fun a b => a.asKey.finds b = true → a = b) := by
    apply distinct.imp_of_mem
    intro a b ha hb apart found
    exact absurd (tame.finds_symm (keys b hb) (keys a ha) found) apart
  exact forward.forall_of_forall_of_flip (fun _ _ _ => rfl) backward he hf h

/-- Looking for a key gives the one entry that it finds. -/
theorem find?_eq_of_finds {es : List (Entry Value)} (distinct : Entry.Distinct es)
    (keys : ∀ e ∈ es, small e.key) {k e : Entry Value} (hk : small k.key) (he : e ∈ es)
    (h : k.asKey.finds e = true) : es.find? k.asKey.finds = some e := by
  obtain ⟨f, found⟩ := Option.isSome_iff_exists.1 (List.find?_isSome.2 ⟨e, he, h⟩)
  have hf : f ∈ es := List.mem_of_find?_eq_some found
  have back := tame.finds_symm hk (keys f hf) (List.find?_some found)
  have same : f = e := tame.eq_of_finds distinct keys hf he
    (tame.finds_trans (keys f hf) hk (keys e he) back h)
  rw [found, same]

/-- Entries none of which finds a later one find pairwise different entries of another list. -/
theorem subperm_found {es fs : List (Entry Value)} (distinct : Entry.Distinct es) (hes : ∀ e ∈ es, small e.key)
    (hfs : ∀ f ∈ fs, small f.key) (found : ∀ e ∈ es, ∃ f, fs.find? e.asKey.finds = some f) :
    (es.map fun e => fs.find? e.asKey.finds).Subperm (fs.map some) := by
  have nodup : (es.map fun e => fs.find? e.asKey.finds).Nodup := by
    refine List.pairwise_map.2 (distinct.imp_of_mem ?_)
    intro a b ha hb apart same
    obtain ⟨g, hg⟩ := found a ha
    have mem := hfs g (List.mem_of_find?_eq_some hg)
    have back := tame.finds_symm (hes b hb) mem (List.find?_some (same ▸ hg))
    exact apart (tame.finds_trans (hes a ha) mem (hes b hb) (List.find?_some hg) back)
  apply nodup.subperm
  intro image hmem
  obtain ⟨e, he, rfl⟩ := List.mem_map.1 hmem
  obtain ⟨g, hg⟩ := found e he
  rw [hg]
  exact List.mem_map_of_mem (List.mem_of_find?_eq_some hg)

/-- If all entries of one list find some in another of the same length, they find all of it. -/
theorem exists_finder {es fs : List (Entry Value)} (lengths : es.length = fs.length)
    (distinct : Entry.Distinct es) (hes : ∀ e ∈ es, small e.key)
    (hfs : ∀ f ∈ fs, small f.key) (found : ∀ e ∈ es, ∃ f, fs.find? e.asKey.finds = some f)
    {f : Entry Value} (hf : f ∈ fs) : ∃ e ∈ es, fs.find? e.asKey.finds = some f := by
  have perm := (tame.subperm_found distinct hes hfs found).perm_of_length_le (by simp [lengths])
  exact List.mem_map.1 (perm.mem_iff.2 (List.mem_map_of_mem hf))

/-- The dict case of symmetry. -/
theorem dict_symm {d d' : Dict Value} (distinct : Entry.Distinct d.entries)
    (hd : ∀ x ∈ (dict d).parts, small x) (hd' : ∀ x ∈ (dict d').parts, small x)
    (lengths : d.entries.length = d'.entries.length) (found : Entry.FoundIn d'.entries d.entries) :
    Same (.dict d') (.dict d) := by
  have keys : ∀ e ∈ d.entries, small e.key := fun e he => hd _ (key_mem_parts he)
  have keys' : ∀ f ∈ d'.entries, small f.key := fun f hf => hd' _ (key_mem_parts hf)
  refine .dict lengths.symm ?_
  intro f hf
  obtain ⟨e, he, hef⟩ := tame.exists_finder lengths distinct keys keys'
    (fun e he => (found e he).imp fun _ => And.left) hf
  obtain ⟨g, heg, values⟩ := found e he
  have same : g = f := Option.some.inj (heg.symm.trans hef)
  subst same
  have back := tame.finds_symm (keys e he) (keys' g hf) (List.find?_some hef)
  exact ⟨e, tame.find?_eq_of_finds distinct keys (keys' g hf) he back,
    tame.symm _ _ (hd _ (value_mem_parts he)) (hd' _ (value_mem_parts hf)) values⟩

/-- The dict case of transitivity. -/
theorem dict_trans {d₁ d₂ d₃ : Dict Value} (distinct : Entry.Distinct d₃.entries)
    (h₁ : ∀ x ∈ (dict d₁).parts, small x) (h₂ : ∀ x ∈ (dict d₂).parts, small x)
    (h₃ : ∀ x ∈ (dict d₃).parts, small x) (found₁₂ : Entry.FoundIn d₂.entries d₁.entries)
    (found₂₃ : Entry.FoundIn d₃.entries d₂.entries) : Entry.FoundIn d₃.entries d₁.entries := by
  intro e he
  obtain ⟨f, hef, valuesEF⟩ := found₁₂ e he
  have hf := List.mem_of_find?_eq_some hef
  obtain ⟨g, hfg, valuesFG⟩ := found₂₃ f hf
  have hg := List.mem_of_find?_eq_some hfg
  have finds := tame.finds_trans (h₁ _ (key_mem_parts he)) (h₂ _ (key_mem_parts hf))
    (h₃ _ (key_mem_parts hg)) (List.find?_some hef) (List.find?_some hfg)
  exact ⟨g, tame.find?_eq_of_finds distinct (fun e' he' => h₃ _ (key_mem_parts he'))
      (h₁ _ (key_mem_parts he)) hg finds,
    tame.trans _ _ _ (h₁ _ (value_mem_parts he)) (h₂ _ (value_mem_parts hf)) (h₃ _ (value_mem_parts hg))
      valuesEF valuesFG⟩

end Tame

variable {w : World}

theorem symm_of_parts {small : Value → Prop} (tame : Tame small) {a b : Value} (ha : a.Sound w)
    (partsA : ∀ x ∈ a.parts, small x) (partsB : ∀ x ∈ b.parts, small x) (h : Same a b) : Same b a := by
  cases h with
  | none => exact .none
  | number hx hy atX atY => exact .number hy hx atY atX
  | text t => exact .text t
  | shared i xs ys => exact .shared i ys xs
  | tuple items => exact .tuple (tame.items_symm partsA partsB items)
  | list items => exact .list (tame.items_symm partsA partsB items)
  | dict lengths found => exact tame.dict_symm ha.fits.distinct partsA partsB lengths found
  | slice s => exact .slice s
  | iter i => exact .iter i

theorem trans_of_parts {small : Value → Prop} (tame : Tame small) {a b c : Value} (ha : a.Sound w)
    (hb : b.Sound w) (hc : c.Sound w) (partsA : ∀ x ∈ a.parts, small x)
    (partsB : ∀ x ∈ b.parts, small x) (partsC : ∀ x ∈ c.parts, small x) (hab : Same a b)
    (hbc : Same b c) : Same a c := by
  cases hab with
  | none => exact hbc
  | number hx hy atX atY =>
    obtain ⟨z, place, hz, atY', atZ⟩ := (beq_iff_of_number hy).1 (beq_of_same hbc)
    exact .number hx hz (atX.trans (atY.symm.trans atY')) atZ
  | text t => exact hbc
  | shared i xs ys =>
    obtain rfl := items_eq_of_storage_eq ha hb
    cases hbc with
    | number hy => cases hy
    | shared _ _ zs => exact .shared i xs zs
    | tuple items => exact .tuple items
  | @tuple i j xs ys items =>
    cases hbc with
    | number hy => cases hy
    | shared _ _ zs =>
      obtain rfl := items_eq_of_storage_eq hb hc
      exact .tuple items
    | tuple items' => exact .tuple (tame.items_trans partsA partsB partsC items items')
  | list items =>
    cases hbc with
    | number hy => cases hy
    | list items' => exact .list (tame.items_trans partsA partsB partsC items items')
  | dict lengths found =>
    cases hbc with
    | number hy => cases hy
    | dict lengths' found' =>
      exact .dict (lengths.trans lengths')
        (tame.dict_trans hc.fits.distinct partsA partsB partsC found found')
  | slice s => exact hbc
  | iter i => exact hbc

/-- Symmetry and transitivity are proved together, by induction on a bound for the sizes: each of them
needs the other for keys. -/
theorem tame_of_size (w : World) (n : Nat) : Tame fun v => v.Sound w ∧ sizeOf v < n := by
  induction n with
  | zero =>
    exact ⟨fun _ _ ha => absurd ha.2 (Nat.not_lt_zero _), fun _ _ _ ha => absurd ha.2 (Nat.not_lt_zero _)⟩
  | succ n ih =>
    have parts : ∀ v : Value, v.Sound w ∧ sizeOf v < n + 1 → ∀ x ∈ v.parts, x.Sound w ∧ sizeOf x < n := by
      intro v hv x hx
      have := sizeOf_lt_of_mem_parts hx
      exact ⟨hv.1.part hx, by omega⟩
    constructor
    · intro a b ha hb h
      exact beq_of_same (symm_of_parts ih ha.1 (parts a ha) (parts b hb) (same_of_beq h))
    · intro a b c ha hb hc hab hbc
      exact beq_of_same (trans_of_parts ih ha.1 hb.1 hc.1 (parts a ha) (parts b hb) (parts c hc)
        (same_of_beq hab) (same_of_beq hbc))

theorem tame_sound (w : World) : Tame (Sound w) := by
  constructor
  · intro a b ha hb h
    exact (tame_of_size w (sizeOf a + sizeOf b + 1)).symm a b ⟨ha, by omega⟩ ⟨hb, by omega⟩ h
  · intro a b c ha hb hc hab hbc
    exact (tame_of_size w (sizeOf a + sizeOf b + sizeOf c + 1)).trans a b c ⟨ha, by omega⟩ ⟨hb, by omega⟩
      ⟨hc, by omega⟩ hab hbc

/-- Whether a NaN is among what is copied with a value. -/
def CopiesNaN (v : Value) : Prop := ∃ x : Binary64, Within copiedParts (.float x) v ∧ x.isNaN = true

theorem copiesNaN_of_part {v x : Value} (mem : x ∈ v.copiedParts) (h : x.CopiesNaN) : v.CopiesNaN := by
  obtain ⟨y, inner, nan⟩ := h
  exact ⟨y, .deeper mem inner, nan⟩

theorem copiesNaN_iff {v : Value} (notFloat : v.kind ≠ .float) :
    v.CopiesNaN ↔ ∃ x ∈ v.copiedParts, x.CopiesNaN := by
  constructor
  · rintro ⟨y, inner, nan⟩
    cases inner with
    | here => exact absurd rfl notFloat
    | deeper mem rest => exact ⟨_, mem, y, rest, nan⟩
  · rintro ⟨x, mem, h⟩
    exact copiesNaN_of_part mem h

theorem copiesNaN_float (x : Binary64) : (float x).CopiesNaN ↔ x.isNaN = true := by
  constructor
  · rintro ⟨y, inner, nan⟩
    cases inner with
    | here => exact nan
    | deeper mem => cases mem
  · intro nan
    exact ⟨x, .here, nan⟩

/-- A dict equals itself if all its keys and values do: a key finds its own entry or none. -/
theorem dict_beq_self_iff {d : Dict Value} (h : (dict d).Sound w) :
    (dict d == dict d) = true ↔ ∀ x ∈ (dict d).parts, (x == x) = true := by
  have keys : ∀ e ∈ d.entries, e.key.Sound w := fun e he => h.part (key_mem_parts he)
  rw [beq_iff_same]
  constructor
  · intro same x hx
    cases same with
    | number hd => cases hd
    | dict _ found =>
      obtain ⟨e, he, which⟩ := mem_parts_dict.1 hx
      obtain ⟨f, hef, values⟩ := found e he
      have own : e = f := (tame_sound w).eq_of_finds h.fits.distinct keys he
        (List.mem_of_find?_eq_some hef) (List.find?_some hef)
      subst own
      rcases which with rfl | rfl
      · exact (finds_iff.1 (List.find?_some hef)).2
      · exact values
  · intro all
    refine .dict rfl ?_
    intro e he
    have finds : e.asKey.finds e = true := finds_iff.2 ⟨rfl, all _ (key_mem_parts he)⟩
    exact ⟨e, (tame_sound w).find?_eq_of_finds h.fits.distinct keys (keys e he) he finds,
      all _ (value_mem_parts he)⟩

theorem list_beq_self_iff {xs : List Value} :
    (list xs == list xs) = true ↔ ∀ x ∈ xs, (x == x) = true :=
  beqItems_iff.trans List.forall₂_same

/-- A value equals its copy unless a NaN is copied with it. -/
theorem beq_self_iff {v : Value} (h : v.Sound w) : (v == v) = true ↔ ¬v.CopiesNaN := by
  induction v using induction_on_parts with
  | step v ih =>
    have unlessPart (notFloat : v.kind ≠ .float)
        (copies : ∀ x ∈ v.copiedParts, (x == x) = true ↔ ¬x.CopiesNaN) :
        (∀ x ∈ v.copiedParts, (x == x) = true) ↔ ¬v.CopiesNaN := by
      rw [copiesNaN_iff notFloat]
      push Not
      exact forall₂_congr copies
    have nothing (notFloat : v.kind ≠ .float) (alone : v.copiedParts = []) : ¬v.CopiesNaN := by
      rw [copiesNaN_iff notFloat, alone]
      simp
    cases v with
    | float x =>
      rw [copiesNaN_float, beq_iff_of_number rfl]
      cases nan : x.isNaN <;> simp [number?, Number.units?, nan]
    | list xs =>
      rw [list_beq_self_iff]
      exact unlessPart (by simp [kind]) fun x hx => ih x hx (h.part hx)
    | dict d =>
      rw [dict_beq_self_iff h]
      exact unlessPart (by simp [kind]) fun x hx => ih x hx (h.part hx)
    | none => exact iff_of_true rfl (nothing (by simp [kind]) rfl)
    | bool b => exact iff_of_true (beq_of_same (.number rfl rfl rfl rfl)) (nothing (by simp [kind]) rfl)
    | int n => exact iff_of_true (beq_of_same (.number rfl rfl rfl rfl)) (nothing (by simp [kind]) rfl)
    | str t => exact iff_of_true (beq_of_same (.text t)) (nothing (by simp [kind]) rfl)
    | tuple i xs => exact iff_of_true (beq_of_same (.shared i xs xs)) (nothing (by simp [kind]) rfl)
    | slice s => exact iff_of_true (beq_of_same (.slice s)) (nothing (by simp [kind]) rfl)
    | iter i => exact iff_of_true (beq_of_same (.iter i)) (nothing (by simp [kind]) rfl)

end Value
end DynamicValues
