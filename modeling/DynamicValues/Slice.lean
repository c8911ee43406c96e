import DynamicValues.Word

/-!
Slices and the positions they select. A slice is resolved against a length into bounds between zero and
that length; the positions are then walked from the first one by steps of one size.

A slice that runs backwards is resolved with both bounds one higher than its first position and the
position at which it stops, so that they stay natural numbers.
-/

set_option autoImplicit false

namespace DynamicValues

structure Slice where
  start : Option Int64
  stop : Option Int64
  step : Option Int64
  deriving DecidableEq

/-- Resolved bounds. A positive step selects from `start` up to and without `stop`, a negative one from
below `start` down to and with `stop`. -/
structure Indices where
  start : Nat
  stop : Nat
  step : Int64
  deriving DecidableEq

/-- The rest of a walk by equal steps. The cursor is gone once it has left the words. -/
structure Walk where
  cursor : Option Int64
  bound : Int64
  step : Int64

namespace Walk

/-- Whether a cursor has not passed the bound. -/
def inside (w : Walk) (i : Int64) : Bool :=
  if 0 < w.step.toInt then i.toInt < w.bound.toInt else w.bound.toInt ≤ i.toInt

def next? (w : Walk) : Option (Int64 × Walk) :=
  match w.cursor with
  | none => none
  | some i => if w.inside i then some (i, { w with cursor := Word.add? i w.step }) else none

/-- The next positions, at most `n` of them. -/
def take : Nat → Walk → List Int64
  | 0, _ => []
  | n + 1, w =>
    match w.next? with
    | none => []
    | some (i, rest) => i :: take n rest

end Walk

namespace Indices

def walk (r : Indices) : Walk :=
  if 0 < r.step.toInt then ⟨some (Int64.ofNat r.start), Int64.ofNat r.stop, r.step⟩
  else ⟨some (Int64.ofNat r.start - 1), Int64.ofNat r.stop, r.step⟩

/-- The first positions, at most `n` of them. -/
def first (r : Indices) (n : Nat) : List Nat := (r.walk.take n).map fun i => i.toInt.toNat

/-- All positions. Each is below the larger bound and none comes twice. -/
def positions (r : Indices) : List Nat := r.first (max r.start r.stop)

/-- The number of positions, in closed form. -/
def length (r : Indices) : Nat :=
  let stride := r.step.toInt.natAbs
  let extent := if 0 < r.step.toInt then r.stop - r.start else r.start - r.stop
  (extent + stride - 1) / stride

def isEmpty (r : Indices) : Bool := r.length == 0

end Indices

namespace Slice

def upTo (stop : Int64) : Slice := ⟨none, some stop, none⟩

/-- A negative index counts from the end, once. -/
def wrap (i : Int64) (len : Nat) : Int :=
  if i.toInt < 0 then i.toInt + len else i.toInt

/-- A bound wrapped, moved by `shift` and kept between zero and the length. The sums stop at the ends of
the words. -/
def resolveBound (bound : Option Int64) (len absent shift : Nat) : Nat :=
  match bound with
  | none => absent
  | some i =>
    let wrapped := if i.toInt < 0 then Word.addSaturating i len else i
    min (Word.addSaturating wrapped shift).toInt.toNat len

/-- The bounds of a window, as those of a slice of step one. -/
def window (start stop : Option Int64) (len : Nat) : Nat × Nat :=
  (resolveBound start len 0 0, resolveBound stop len len 0)

/-- The slice against a length; a slice of step zero has no positions to speak of. -/
def indices? (s : Slice) (len : Nat) : Option Indices :=
  let step := s.step.getD 1
  if step = 0 then none
  else if 0 < step.toInt then
    some ⟨resolveBound s.start len 0 0, resolveBound s.stop len len 0, step⟩
  else
    some ⟨resolveBound s.start len len 1, resolveBound s.stop len 0 1, step⟩

/-- An absent component is below every present one. -/
def compareComponent : Option Int64 → Option Int64 → Ordering
  | none, none => .eq
  | none, some _ => .lt
  | some _, none => .gt
  | some a, some b => compare a.toInt b.toInt

def cmp (s t : Slice) : Ordering :=
  (compareComponent s.start t.start).then
    ((compareComponent s.stop t.stop).then (compareComponent s.step t.step))

end Slice
end DynamicValues
