import DynamicValues.Binary64
import DynamicValues.Word

/-!
Numbers are words or doubles. A word and a double are compared without rounding the word: the double is
first held against the range of the words, and then its floor is a word. A NaN equals nothing and sorts
after every number.
-/

set_option autoImplicit false

namespace DynamicValues

inductive Number where
  | int (n : Int64)
  | float (x : Binary64)

namespace Number

/-- The double nearest to a number. -/
def toFloat : Number → Binary64
  | .int n => .ofInt n.toInt
  | .float x => x

/-- The least double above all words. -/
def limit : Binary64 := .ofInt Word.limit

/-- The least word, as a double. -/
def lowest : Binary64 := .ofInt (-Word.limit)

/-- The word that a double is exactly, if it is one. -/
def exactWord? (x : Binary64) : Option Int64 :=
  if x.isWhole && lowest.le x && x.lt limit then some (Word.saturate x.floor) else none

def cmpWordFloat (n : Int64) (x : Binary64) : Ordering :=
  if x.isNaN || limit.le x then .lt
  else if x.lt lowest then .gt
  else
    match compare n.toInt (Word.saturate x.floor).toInt with
    | .eq => if x.floor * Binary64.one < x.units then .lt else .eq
    | order => order

/-- The order of doubles, with NaN at the end. -/
def cmpFloat (x y : Binary64) : Ordering :=
  match x.isNaN, y.isNaN with
  | true, true => .eq
  | true, false => .gt
  | false, true => .lt
  | false, false => compare x.units y.units

def beq : Number → Number → Bool
  | .int m, .int n => m == n
  | .float x, .float y => x.beq y
  | .int n, .float x => exactWord? x == some n
  | .float x, .int n => exactWord? x == some n

def cmp : Number → Number → Ordering
  | .int m, .int n => compare m.toInt n.toInt
  | .int n, .float x => cmpWordFloat n x
  | .float x, .int n => (cmpWordFloat n x).swap
  | .float x, .float y => cmpFloat x y

end Number
end DynamicValues
