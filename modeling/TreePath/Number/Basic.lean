import TreePath.Number.Decimal
import TreePath.Number.Shortest

/-!
# Numbers

The four kinds of number that a document may hold, compared by mathematical value across kinds. A number equals
another when their real parts and their imaginary parts are equal; only numbers without an imaginary part are ordered;
a NaN equals nothing and has no order.
-/

namespace TreePath

/-- Whether an integer fits a signed word of 64 bits. -/
def fitsWord (n : Int) : Bool := Int64.minValue.toInt ≤ n && n ≤ Int64.maxValue.toInt

/-- A point of the extended real line. -/
inductive Extended
  | negativeInfinity
  | exact (x : Exact)
  | positiveInfinity

namespace Extended

def compare : Extended → Extended → Ordering
  | .negativeInfinity, .negativeInfinity => .eq
  | .negativeInfinity, _ => .lt
  | _, .negativeInfinity => .gt
  | .positiveInfinity, .positiveInfinity => .eq
  | .positiveInfinity, _ => .gt
  | _, .positiveInfinity => .lt
  | .exact x, .exact y => x.compare y

def infinity (negative : Bool) : Extended := if negative then .negativeInfinity else .positiveInfinity

end Extended

def Binary64.extended? : Binary64 → Option Extended
  | .nan => none
  | .infinite negative => some (.infinity negative)
  | .finite x => some (.exact x.exact)

def Decimal.extended? : Decimal → Option Extended
  | .nan .. => none
  | .infinite negative => some (.infinity negative)
  | .finite negative c e => some (.exact ⟨if negative then -c else c, e⟩)

inductive Number
  | int (n : Int)
  | float (x : Binary64)
  | decimal (d : Decimal)
  | complex (re im : Binary64)
  deriving DecidableEq

namespace Number

def realPart? : Number → Option Extended
  | .int n => some (.exact (.ofInt n))
  | .float x => x.extended?
  | .decimal d => d.extended?
  | .complex re _ => re.extended?

def imaginaryPart? : Number → Option Extended
  | .complex _ im => im.extended?
  | _ => some (.exact (.ofInt 0))

/-- The place on the real line; a complex number has none, whatever its imaginary part. -/
def line? : Number → Option Extended
  | .complex .. => none
  | x => x.realPart?

/-- How two places compare; a missing place compares with nothing. -/
def compare? : Option Extended → Option Extended → Option Ordering
  | some a, some b => some (a.compare b)
  | _, _ => none

def equal (x y : Number) : Bool :=
  compare? x.realPart? y.realPart? == some .eq && compare? x.imaginaryPart? y.imaginaryPart? == some .eq

/-- The order of two numbers on the real line, if both have a place there. -/
def order? (x y : Number) : Option Ordering := compare? x.line? y.line?

def isZero : Number → Bool
  | .int n => n == 0
  | .float x => x.isZero
  | .decimal d => d.isZero
  | .complex re im => re.isZero && im.isZero

end Number

end TreePath
