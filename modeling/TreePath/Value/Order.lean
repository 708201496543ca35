import TreePath.Value.Equality

/-!
# Comparison of values

The six operators of filters. Equality is defined for every pair of values; the order only for two numbers with a place
on the real line, two texts and two truth values, and every ordering operator fails on other pairs.
-/

namespace TreePath

inductive Operator
  | gt
  | ge
  | lt
  | le
  | eq
  | ne
  deriving DecidableEq

namespace Operator

def all : List Operator := [.gt, .ge, .lt, .le, .eq, .ne]

def text : Operator → Text
  | .gt => chars ['>']
  | .ge => chars ['>', '=']
  | .lt => chars ['<']
  | .le => chars ['<', '=']
  | .eq => chars ['=', '=']
  | .ne => chars ['!', '=']

def ofText? (s : Text) : Option Operator := all.find? fun op => op.text = s

end Operator

namespace Value

/-- How two values of one ordered kind compare. -/
def order? : Value → Value → Option Ordering
  | .bool a, .bool b => some (compare a.toNat b.toNat)
  | .number x, .number y => x.order? y
  | .string s, .string t => some (if s.lt t then .lt else if t.lt s then .gt else .eq)
  | _, _ => none

def satisfies (op : Operator) (left right : Value) : Bool :=
  match op with
  | .eq => left.equal right
  | .ne => !left.equal right
  | .gt => left.order? right == some .gt
  | .lt => left.order? right == some .lt
  | .ge => left.order? right == some .gt || left.order? right == some .eq
  | .le => left.order? right == some .lt || left.order? right == some .eq

end Value

end TreePath
