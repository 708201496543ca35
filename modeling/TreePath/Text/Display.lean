import TreePath.Text.Printable

/-!
# Displayed texts

The form in which messages show a text: in quotes, with escapes for what cannot be printed.
-/

namespace TreePath

/-- The lower-case hexadecimal digits of `n`, `width` of them. -/
def hexDigits : (width n : Nat) → List Nat
  | 0, _ => []
  | width + 1, n => hexDigits width (n / 16) ++ [n % 16]

def hexPoint (d : Nat) : CodePoint := CodePoint.ofNat (if d < 10 then 48 + d else 87 + d)

namespace Text

def hex (width n : Nat) : Text := (hexDigits width n).map hexPoint

/-- Double quotes are taken only for a text that has single quotes and no double ones. -/
def displayQuote (s : Text) : CodePoint :=
  if s.contains ('\'' : CodePoint) && !s.contains ('"' : CodePoint) then '"' else '\''

/-- One code point between quotes `q`. -/
def displayPoint (q c : CodePoint) : Text :=
  if c = q ∨ c = '\\' then ['\\', c]
  else if c = '\n' then ['\\', 'n']
  else if c = '\r' then ['\\', 'r']
  else if c = '\t' then ['\\', 't']
  else if c.isPrintable then [c]
  else if c.val < 0x100 then '\\' :: 'x' :: hex 2 c.val
  else if c.val < 0x10000 then '\\' :: 'u' :: hex 4 c.val
  else '\\' :: 'U' :: hex 8 c.val

def display (s : Text) : Text :=
  let q := s.displayQuote
  q :: s.flatMap (displayPoint q) ++ [q]

end Text

end TreePath
