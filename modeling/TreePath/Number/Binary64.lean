import TreePath.Number.Exact
import TreePath.Number.Numeral

/-!
# Binary64 numbers

A finite binary64 number is a sign and a rank: the place of its magnitude among all finite magnitudes, zero having
rank zero. Each magnitude is a whole number of units of `2 ^ -1074`; below rank `2 ^ 53` the rank is that number, and
each further block of `2 ^ 52` ranks doubles the spacing. The order of the ranks is the order of the magnitudes.

`Binary64.nearest` rounds a decimal to the nearest number, a tie to the even rank.
-/

namespace TreePath

/-- The number of finite magnitudes. -/
def Binary64.ranks : Nat := 2047 * Nat.pow 2 52

structure Binary64.Finite where
  negative : Bool
  rank : Nat
  rank_lt : rank < Binary64.ranks
  deriving DecidableEq

inductive Binary64
  | nan
  | infinite (negative : Bool)
  | finite (x : Binary64.Finite)
  deriving DecidableEq

namespace Binary64

/-! ## Magnitudes -/

/-- The significand of the magnitude of rank `r`. -/
def significand (r : Nat) : Nat := if r < Nat.pow 2 53 then r else Nat.pow 2 52 + r % Nat.pow 2 52

/-- The spacing at rank `r` is `2 ^ scale r` units. -/
def scale (r : Nat) : Nat := if r < Nat.pow 2 53 then 0 else r / Nat.pow 2 52 - 1

/-- The power of two by which the significand of rank `r` is scaled. -/
def power (r : Nat) : Int := (scale r : Int) - 1074

/-- The magnitude of rank `r` as a fraction `n / d`. -/
def fraction (r : Nat) : Nat × Nat :=
  if 0 ≤ power r then (significand r * Nat.pow 2 (power r).toNat, 1) else (significand r, Nat.pow 2 (-power r).toNat)

/-- The magnitude of rank `r` as an exact decimal: dividing by `2 ^ k` is multiplying by `5 ^ k · 10 ^ -k`. -/
def Finite.exact (x : Finite) : Exact :=
  let m : Exact := if 0 ≤ power x.rank then ⟨significand x.rank * Nat.pow 2 (power x.rank).toNat, 0⟩
    else ⟨significand x.rank * Nat.pow 5 (-power x.rank).toNat, power x.rank⟩
  if x.negative then ⟨-m.coefficient, m.exponent⟩ else m

/-! ## Rounding -/

/-- The quotient `n / d` rounded to the nearest whole number, a tie to the even one. -/
def roundDiv (n d : Nat) : Nat :=
  let q := n / d
  let r := n % d
  if 2 * r < d then q else if d < 2 * r then q + 1 else q + q % 2

/-- The rank nearest to the magnitude `n / d`; at least `ranks` when the magnitude is too large. -/
def nearestRank (n d : Nat) : Nat :=
  let units := n * Nat.pow 2 1074 / d
  let s := if units < Nat.pow 2 53 then 0 else units.log2 - 52
  s * Nat.pow 2 52 + roundDiv (n * Nat.pow 2 1074) (d * Nat.pow 2 s)

def ofRank (negative : Bool) (r : Nat) : Binary64 :=
  if h : r < ranks then .finite ⟨negative, r, h⟩ else .infinite negative

/-- The rank nearest to `c · 10 ^ e`. Far outside the range the exponent alone decides. -/
def decimalRank (c : Nat) (e : Int) : Nat :=
  if c = 0 then 0
  else if 310 < Exact.adjusted c e then ranks
  else if Exact.adjusted c e < -330 then 0
  else if 0 ≤ e then nearestRank (c * Nat.pow 10 e.toNat) 1 else nearestRank c (Nat.pow 10 (-e).toNat)

/-- The binary64 number nearest to `c · 10 ^ e` with the given sign. -/
def nearest (negative : Bool) (c : Nat) (e : Int) : Binary64 := ofRank negative (decimalRank c e)

def ofNumeral (n : Numeral) : Binary64 := nearest n.negative n.coefficient n.exponent

/-! ## Classes -/

/-- Zero without a sign. -/
def zero : Binary64 := .finite ⟨false, 0, by decide⟩

def isZero : Binary64 → Bool
  | .finite x => x.rank == 0
  | _ => false

def finite? : Binary64 → Option Finite
  | .finite x => some x
  | _ => none

end Binary64

end TreePath
