import TreePath.Text.Basic

/-!
# Exact decimal numbers

A number `c · 10 ^ e` with integers `c` and `e`. Every integer, every finite binary64 number and every finite decimal
number is one, so all of them are compared here, by value. The comparison looks at the position of the leading digits
first and scales only numbers whose leading digits have the same position, so that a huge exponent costs nothing.
-/

namespace TreePath

structure Exact where
  coefficient : Int
  exponent : Int
  deriving DecidableEq

namespace Exact

def ofInt (n : Int) : Exact := ⟨n, 0⟩

/-- The position just above the leading digit of `c · 10 ^ e`. -/
def adjusted (c : Nat) (e : Int) : Int := (decimalDigits c).length + e

/-- Compares `c · 10 ^ e` with `d · 10 ^ f`, both positive. -/
def comparePositive (c : Nat) (e : Int) (d : Nat) (f : Int) : Ordering :=
  match compare (adjusted c e) (adjusted d f) with
  | .eq => compare (c * Nat.pow 10 (e - min e f).toNat) (d * Nat.pow 10 (f - min e f).toNat)
  | o => o

def compare (x y : Exact) : Ordering :=
  match Ord.compare x.coefficient.sign y.coefficient.sign with
  | .eq =>
    if x.coefficient = 0 then .eq
    else if 0 < x.coefficient then
      comparePositive x.coefficient.natAbs x.exponent y.coefficient.natAbs y.exponent
    else comparePositive y.coefficient.natAbs y.exponent x.coefficient.natAbs x.exponent
  | o => o

end Exact

end TreePath
