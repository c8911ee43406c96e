import DynamicValues.Decimal.Shortest

/-!
Decimal text of doubles. A layout says which exponents are written positionally, how the others are
marked, and where ties go.
-/

set_option autoImplicit false

namespace DynamicValues

structure Layout where
  /-- Leading exponents from `plainFrom` to `plainTo` are written positionally. -/
  plainFrom : Int
  plainTo : Int
  /-- Whether a positive exponent carries its sign. -/
  plus : Bool
  tie : Tie

namespace Layout

def digits (n : Nat) : List Char := Nat.toDigits 10 n

def integer (n : Int) : List Char :=
  if n < 0 then '-' :: digits n.natAbs else digits n.natAbs

/-- Digits with the point after the one of exponent zero, and at least one digit on each side. -/
def plain (ds : List Char) (top : Int) : List Char :=
  if top < 0 then '0' :: '.' :: (List.replicate (top.natAbs - 1) '0' ++ ds)
  else
    let whole := top.natAbs + 1
    if ds.length ≤ whole then ds ++ List.replicate (whole - ds.length) '0' ++ ['.', '0']
    else ds.take whole ++ '.' :: ds.drop whole

/-- Digits with the point after the first one, and the exponent. -/
def scientific (layout : Layout) (ds : List Char) (top : Int) : List Char :=
  let tail := ds.drop 1
  ds.take 1 ++ (if tail.isEmpty then [] else '.' :: tail) ++
    'e' :: ((if layout.plus && 0 < top then ['+'] else []) ++ integer top)

def decimal (layout : Layout) (d : Decimal) : List Char :=
  let ds := digits d.coefficient
  let top := d.exponent + ds.length - 1
  if layout.plainFrom ≤ top ∧ top ≤ layout.plainTo then plain ds top else layout.scientific ds top

/-- The text of a finite double. -/
def finite (layout : Layout) (x : Binary64) : List Char :=
  let body :=
    if x.magnitude = 0 then ['0', '.', '0'] else layout.decimal (Decimal.shortest layout.tie x.magnitude)
  if x.negative then '-' :: body else body

end Layout
end DynamicValues
