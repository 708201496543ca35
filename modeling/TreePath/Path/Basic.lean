import TreePath.Value.Order

/-!
# Paths

A path is a list of tokens. Each token moves from the current value to some values below it, or anchors the walk anew.
The types leave no room for tokens that mean nothing: a slice has a positive step, a filter tests a path that is not
empty against a literal, a union has an alternative, a descent has a key.
-/

namespace TreePath

/-- What one child is looked up by. -/
inductive Key
  | name (s : Text)
  | index (i : Int)
  deriving DecidableEq

/-- The elements from `first` up to `last`, or up to the end if there is no `last`, every `step`-th of them. -/
structure Slice where
  first : Int
  last : Option Int
  step : Nat
  step_pos : 0 < step
  deriving DecidableEq

/-- A positive integer is a step. -/
theorem toNat_pos {i : Int} (h : 0 < i) : 0 < i.toNat := Int.pos_iff_toNat_pos.1 h

/-- What a filter compares with. -/
inductive Literal
  | null
  | bool (b : Bool)
  | int (n : Int)
  | float (x : Binary64.Finite)
  | string (s : Text)
  deriving DecidableEq

def Literal.toValue : Literal → Value
  | .null => .null
  | .bool b => .bool b
  | .int n => .int n
  | .float x => .number (.float (.finite x))
  | .string s => .string s

/-- The literal that a value can serve as. -/
def Literal.ofValue? : Value → Option Literal
  | .null => some .null
  | .bool b => some (.bool b)
  | .number (.int n) => some (.int n)
  | .number (.float (.finite x)) => some (.float x)
  | .string s => some (.string s)
  | _ => none

mutual

/-- What stands between brackets: a token that picks children of the current value. -/
inductive Selector
  | child (key : Key)
  | slice (bounds : Slice)
  | wildcard
  /-- The children for which the path `head :: tail` leads to a value that satisfies `op literal`. If that path was
  given as a text, `source` is the text. -/
  | filter (source : Option Text) (head : Token) (tail : List Token) (op : Operator) (literal : Literal)

inductive Token
  /-- Back to the root of the document. -/
  | root
  /-- Stays at the current value. -/
  | current
  | select (s : Selector)
  /-- The members under a key at any depth. -/
  | descend (key : Text) (key_ne : key ≠ [])
  /-- The selections of several selectors, one after the other. -/
  | union (first : Selector) (others : List Selector)

end

namespace Token

def child (key : Key) : Token := .select (.child key)

def wildcard : Token := .select .wildcard

/-- Whether the token leads from every value to exactly one entry. -/
def isStep : Token → Bool
  | .root => true
  | .current => true
  | .select (.child _) => true
  | _ => false

end Token

/-- A path with the text it was compiled from, if it was compiled. -/
structure Path where
  tokens : List Token
  source : Option Text

/-- The token at an index; negative indices count from the end. -/
def Path.token? (p : Path) (i : Int) : Option Token :=
  let n : Int := p.tokens.length
  if 0 ≤ i then p.tokens[i.toNat]? else if -n ≤ i then p.tokens[(i + n).toNat]? else none

end TreePath
