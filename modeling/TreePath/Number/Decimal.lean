import TreePath.Number.Exact
import TreePath.Number.Numeral

/-!
# Decimal numbers

Decimal floating point as data: a sign, a coefficient and an exponent, so that `1.5` and `1.50` are different decimals
of one value; beside these the infinities and the quiet and signalling NaNs, which may carry a payload.
-/

namespace TreePath

inductive Decimal
  | finite (negative : Bool) (coefficient : Nat) (exponent : Int)
  | infinite (negative : Bool)
  | nan (negative signaling : Bool) (payload : Nat)
  deriving DecidableEq

namespace Decimal

def isZero : Decimal → Bool
  | .finite _ c _ => c == 0
  | _ => false

/-! ## Text -/

/-- The digits of a coefficient with the point at position `p`, counted from their start. -/
def pointText (ds : Text) (p : Int) : Text :=
  if p ≤ 0 then chars ['0', '.'] ++ List.replicate (-p).toNat (digitPoint 0) ++ ds
  else if ds.length ≤ p then ds ++ List.replicate (p - ds.length).toNat (digitPoint 0)
  else ds.take p.toNat ++ chars ['.'] ++ ds.drop p.toNat

/-- Positional for an exponent that is not positive and a leading digit no further than the sixth place behind the
point; otherwise one digit before the point and a power of ten. -/
def magnitudeText (c : Nat) (e : Int) : Text :=
  let ds := Text.ofNat c
  let p := (ds.length : Int) + e
  if e ≤ 0 ∧ -6 < p then pointText ds p
  else
    let scale := p - 1
    pointText ds 1 ++ (if scale = 0 then [] else chars ['E', if scale < 0 then '-' else '+'] ++ Text.ofNat scale.natAbs)

def text : Decimal → Text
  | .finite negative c e => Text.sign negative ++ magnitudeText c e
  | .infinite negative => Text.sign negative ++ chars ['I', 'n', 'f', 'i', 'n', 'i', 't', 'y']
  | .nan negative signaling payload =>
    Text.sign negative ++ (if signaling then chars ['s'] else []) ++ chars ['N', 'a', 'N'] ++
      (if payload = 0 then [] else Text.ofNat payload)

/-- The unsigned forms that are no numeral. -/
def special? (negative : Bool) (s : Text) : Option Decimal :=
  let payload? (signaling : Bool) (ds : Text) : Option Decimal :=
    if ds.all CodePoint.isDigit then some (.nan negative signaling ds.digitsValue) else none
  if s = chars ['I', 'n', 'f', 'i', 'n', 'i', 't', 'y'] then some (.infinite negative)
  else if s.take 3 = chars ['N', 'a', 'N'] then payload? false (s.drop 3)
  else if s.take 4 = chars ['s', 'N', 'a', 'N'] then payload? true (s.drop 4)
  else none

/-- Reads what `text` writes, and every other numeral. -/
def read? (s : Text) : Option Decimal :=
  match Numeral.read? s with
  | some n => some (.finite n.negative n.coefficient n.exponent)
  | none => special? (Numeral.minus s).1 (Numeral.minus s).2

end Decimal

end TreePath
