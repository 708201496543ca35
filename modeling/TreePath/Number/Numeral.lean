import TreePath.Text.Digit

/-!
# Numerals

The written form of a number: an optional minus sign, decimal digits, an optional fraction and an optional power of
ten. Digits of every script count. A numeral with neither fraction nor power is an integer numeral.

`Numeral.leading?` reads the longest numeral at the start of a text, `Numeral.text` writes one.
-/

namespace TreePath

/-- The power of ten of a numeral: its mark (`e` or `E`), its sign if one is written, and its digits. -/
structure Numeral.Power where
  mark : CodePoint
  sign : Option CodePoint
  digits : Text
  deriving DecidableEq

structure Numeral where
  negative : Bool
  whole : Text
  fraction : Option Text
  power : Option Numeral.Power
  deriving DecidableEq

namespace Numeral

/-! ## Writing -/

def Power.text (p : Power) : Text := p.mark :: p.sign.toList ++ p.digits

def text (n : Numeral) : Text :=
  Text.sign n.negative ++ n.whole ++ (n.fraction.elim [] fun f => chars ['.'] ++ f) ++ n.power.elim [] Power.text

/-! ## Reading -/

/-- The digits at the start of `s`, if there are any, and what follows them. -/
def digits? (s : Text) : Option (Text × Text) :=
  let ds := s.takeWhile CodePoint.isDigit
  if ds = [] then none else some (ds, s.dropWhile CodePoint.isDigit)

/-- A minus sign at the start of `s`. -/
def minus : Text → Bool × Text
  | [] => (false, [])
  | c :: s => if c = '-' then (true, s) else (false, c :: s)

/-- A point with digits behind it. A point without digits is no fraction. -/
def fraction? : Text → Option Text × Text
  | [] => (none, [])
  | c :: s => if c = '.' then (match digits? s with
    | some (ds, r) => (some ds, r)
    | none => (none, c :: s)) else (none, c :: s)

def powerSign : Text → Option CodePoint × Text
  | [] => (none, [])
  | c :: s => if c = '+' ∨ c = '-' then (some c, s) else (none, c :: s)

/-- A mark with an optional sign and digits behind it. A mark without digits is no power. -/
def power? : Text → Option Power × Text
  | [] => (none, [])
  | c :: s => if c = 'e' ∨ c = 'E' then (match digits? (powerSign s).2 with
    | some (ds, r) => (some ⟨c, (powerSign s).1, ds⟩, r)
    | none => (none, c :: s)) else (none, c :: s)

/-- The longest numeral at the start of `s`, and what follows it. -/
def leading? (s : Text) : Option (Numeral × Text) :=
  let (negative, s) := minus s
  match digits? s with
  | none => none
  | some (whole, s) =>
    let (fraction, s) := fraction? s
    let (power, s) := power? s
    some (⟨negative, whole, fraction, power⟩, s)

/-- A text that is one numeral as a whole. -/
def read? (s : Text) : Option Numeral :=
  match leading? s with
  | some (n, []) => some n
  | _ => none

/-! ## Meaning -/

def isInteger (n : Numeral) : Bool := n.fraction.isNone && n.power.isNone

/-- The value of an integer numeral. -/
def integer (n : Numeral) : Int := if n.negative then -n.whole.digitsValue else n.whole.digitsValue

def Power.value (p : Power) : Int :=
  if p.sign = some (('-' : Char) : CodePoint) then -p.digits.digitsValue else p.digits.digitsValue

/-- The digits before and behind the point, read as one number. -/
def coefficient (n : Numeral) : Nat := (n.whole ++ n.fraction.getD []).digitsValue

/-- The power of ten by which the coefficient is scaled. -/
def exponent (n : Numeral) : Int := n.power.elim 0 Power.value - ((n.fraction.getD []).length : Nat)

end Numeral

end TreePath
