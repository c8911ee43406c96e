/-!
Double-precision numbers as words of 64 bits: a sign, and a magnitude below it that grows with the
number it stands for. All arithmetic is exact, in units of `2 ^ -1074`, and rounds once, to the nearest
double with ties to the even one.
-/

set_option autoImplicit false

namespace DynamicValues

structure Binary64 where
  bits : UInt64
  deriving DecidableEq

namespace Binary64

/-- The weight of the sign. -/
def signBit : Nat := 1 <<< 63

/-- The weight of the lowest bit of the exponent, which is also that of the leading bit of a significand. -/
def leadBit : Nat := 1 <<< 52

/-- The magnitude of infinity; a larger magnitude is a NaN. -/
def infinite : Nat := 0x7ff <<< 52

def negative (x : Binary64) : Bool := signBit ≤ x.bits.toNat

def magnitude (x : Binary64) : Nat := x.bits.toNat % signBit

def isNaN (x : Binary64) : Bool := infinite < x.magnitude

def isInfinite (x : Binary64) : Bool := x.magnitude = infinite

def isFinite (x : Binary64) : Bool := x.magnitude < infinite

def ofParts (negative : Bool) (magnitude : Nat) : Binary64 :=
  ⟨UInt64.ofNat (magnitude + if negative then signBit else 0)⟩

/-- The NaN of an operation that has no value. -/
def invalid : Binary64 := ⟨0xfff8000000000000⟩

/-- What a magnitude stands for, in units of `2 ^ -1074`. Infinity stands one step above the largest
finite number. -/
def unitsOf (magnitude : Nat) : Nat :=
  let exponent := magnitude / leadBit
  let fraction := magnitude % leadBit
  if exponent = 0 then fraction else (leadBit + fraction) <<< (exponent - 1)

/-- The signed number of units, for a number that is not NaN. -/
def units (x : Binary64) : Int :=
  if x.negative then -(unitsOf x.magnitude) else unitsOf x.magnitude

/-- The units of one. -/
def one : Nat := 1 <<< 1074

/-- The integer nearest to `num / den`, the even one of two. -/
def roundDiv (num den : Nat) : Nat :=
  let quotient := num / den
  let twice := 2 * (num % den)
  if den < twice ∨ twice = den ∧ quotient % 2 = 1 then quotient + 1 else quotient

/-- The magnitude nearest to `num / den` units. -/
def nearest (num den : Nat) : Nat :=
  let shift := (num / den).log2 - 52
  min infinite (shift * leadBit + roundDiv num (den <<< shift))

/-- The double nearest to a whole number of units; `zeroNegative` is the sign of a zero. -/
def ofUnits (n : Int) (zeroNegative : Bool) : Binary64 :=
  ofParts (n < 0 || n == 0 && zeroNegative) (nearest n.natAbs 1)

def ofInt (n : Int) : Binary64 := ofUnits (n * one) false

/-- Equality of numbers; a NaN equals nothing, and the two zeros are equal. -/
def beq (x y : Binary64) : Bool := !x.isNaN && !y.isNaN && x.units == y.units

/-- The order of numbers; a NaN is neither below nor above anything. -/
def lt (x y : Binary64) : Bool := !x.isNaN && !y.isNaN && x.units < y.units

def le (x y : Binary64) : Bool := !x.isNaN && !y.isNaN && x.units ≤ y.units

/-- Whether `x` is an integer. -/
def isWhole (x : Binary64) : Bool := x.isFinite && x.units % one == 0

/-- The greatest integer that is not above a finite `x`. -/
def floor (x : Binary64) : Int := x.units / one

/-- A NaN operand is the sum, the left one first; infinities of opposite sign have no sum; a zero sum is
negative only if both operands are. -/
def add (x y : Binary64) : Binary64 :=
  if x.isNaN then x
  else if y.isNaN then y
  else if x.isInfinite then
    if y.isInfinite && x.negative != y.negative then invalid else x
  else if y.isInfinite then y
  else ofUnits (x.units + y.units) (x.negative && y.negative)

/-- The double nearest to `coefficient * 10 ^ exponent`. -/
def ofDecimal (negative : Bool) (coefficient : Nat) (exponent : Int) : Binary64 :=
  ofParts negative <|
    if exponent < 0 then nearest (coefficient * one) (Nat.pow 10 exponent.natAbs)
    else nearest (coefficient * Nat.pow 10 exponent.natAbs * one) 1

end Binary64
end DynamicValues
