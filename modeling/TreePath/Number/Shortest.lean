import TreePath.Number.Binary64

/-!
# Shortest decimals

The shortest decimal text that reads back as a given binary64 number. For one digit, two digits and so on, the two
neighbours of the number on that decimal grid are tried; the first grid with a neighbour that reads back wins, of two
the nearer, and a tie goes to the even digit. Seventeen digits are always enough; the exact decimal stands behind them.

Numbers from `10 ^ -4` up to `10 ^ 16` are written positionally, the others with a power of ten of at least two digits.
-/

namespace TreePath.Binary64

/-! ## Digits -/

/-- A position with `10 ^ (p - 1) ≤ n / d < 10 ^ p`, for a positive fraction. -/
def leadingPosition (n d : Nat) : Int :=
  if d ≤ n then (decimalDigits (n / d)).length
  else
    let k := (decimalDigits (d / n)).length
    if n * Nat.pow 10 k < d * 10 then 1 - (k : Int) else 2 - (k : Int)

/-- The fraction `n / d` in steps of `10 ^ e`, as a fraction again. -/
def inSteps (n d : Nat) (e : Int) : Nat × Nat :=
  if 0 ≤ e then (n, d * Nat.pow 10 e.toNat) else (n * Nat.pow 10 (-e).toNat, d)

/-- A neighbour of `n / d` on the grid of step `10 ^ e` that reads back as rank `r`. -/
def onGrid? (r n d : Nat) (e : Int) : Option Nat :=
  let (a, b) := inSteps n d e
  let low := a / b
  let high := low + 1
  match decimalRank low e == r, decimalRank high e == r with
  | true, true =>
    if 2 * a < (2 * low + 1) * b then some low
    else if (2 * low + 1) * b < 2 * a then some high
    else some (low + low % 2)
  | true, false => some low
  | false, true => some high
  | false, false => none

/-- The first of the grids with step `10 ^ e`, `10 ^ (e - 1)`, … that has a neighbour reading back. -/
def firstGrid? (r n d : Nat) : (grids : Nat) → Int → Option (Nat × Int)
  | 0, _ => none
  | grids + 1, e =>
    match onGrid? r n d e with
    | some c => some (c, e)
    | none => firstGrid? r n d grids (e - 1)

/-- The shortest decimal `c · 10 ^ e` that reads back as rank `r`. -/
def shortest (r : Nat) : Nat × Int :=
  if r = 0 then (0, 0)
  else
    let (n, d) := fraction r
    match firstGrid? r n d 17 (leadingPosition n d - 1) with
    | some ce => ce
    | none =>
      if 0 ≤ power r then (n, 0) else (significand r * Nat.pow 5 (-power r).toNat, power r)

/-! ## Text -/

def stripZeros (ds : List Nat) : List Nat := (ds.reverse.dropWhile (· == 0)).reverse

def digitText (ds : List Nat) : Text := ds.map digitPoint

/-- At least two digits of an exponent, behind its sign. -/
def exponentText (e : Int) : Text :=
  chars [if e < 0 then '-' else '+'] ++ (if e.natAbs < 10 then chars ['0'] else []) ++ Text.ofNat e.natAbs

/-- The digits `ds` with the point at position `p`; whole numbers are followed by `whole`. -/
def pointText (whole : Text) (ds : List Nat) (p : Int) : Text :=
  if p ≤ 0 then chars ['0', '.'] ++ digitText (List.replicate (-p).toNat 0 ++ ds)
  else if ds.length ≤ p then digitText (ds ++ List.replicate (p - ds.length).toNat 0) ++ whole
  else digitText (ds.take p.toNat) ++ chars ['.'] ++ digitText (ds.drop p.toNat)

/-- A magnitude; `whole` is written behind a number that has no digits after the point. -/
def magnitudeText (whole : Text) (r : Nat) : Text :=
  if r = 0 then chars ['0'] ++ whole
  else
    let (c, e) := shortest r
    let ds := decimalDigits c
    let p := (ds.length : Int) + e
    let ds := stripZeros ds
    if -4 < p ∧ p ≤ 16 then pointText whole ds p
    else digitText (ds.take 1) ++ (if ds.length ≤ 1 then [] else chars ['.'] ++ digitText (ds.drop 1)) ++
      chars ['e'] ++ exponentText (p - 1)

def Finite.text (x : Finite) : Text := Text.sign x.negative ++ magnitudeText (chars ['.', '0']) x.rank

/-- The text of a number; `whole` as in `magnitudeText`. -/
def textWith (whole : Text) : Binary64 → Text
  | .nan => chars ['n', 'a', 'n']
  | .infinite negative => Text.sign negative ++ chars ['i', 'n', 'f']
  | .finite x => Text.sign x.negative ++ magnitudeText whole x.rank

/-- A whole number keeps the point and one zero. -/
def text (x : Binary64) : Text := x.textWith (chars ['.', '0'])

/-- Reads what `text` writes, and every other numeral. -/
def read? (s : Text) : Option Binary64 :=
  if s = chars ['n', 'a', 'n'] then some .nan
  else if s = chars ['i', 'n', 'f'] then some (.infinite false)
  else if s = chars ['-', 'i', 'n', 'f'] then some (.infinite true)
  else (Numeral.read? s).map ofNumeral

end TreePath.Binary64
