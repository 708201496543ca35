import TreePath.Value.Basic

/-!
# Equality of values

Values are equal when they are of one kind and equal as that kind: numbers by value, texts by their code points, lists
and tuples element by element, objects member by member in any order. What has no kind equals nothing.
-/

namespace TreePath.Value

mutual

def equal : Value → Value → Bool
  | .null, .null => true
  | .bool a, .bool b => a == b
  | .number x, .number y => x.equal y
  | .string s, .string t => s == t
  | .list xs, .list ys => equalAll xs ys
  | .list xs, .tuple ys => equalAll xs ys
  | .tuple xs, .list ys => equalAll xs ys
  | .tuple xs, .tuple ys => equalAll xs ys
  | .object ms, .object ns => ms.length == ns.length && equalMembers ms ns
  | _, _ => false

def equalAll : List Value → List Value → Bool
  | [], [] => true
  | x :: xs, y :: ys => equal x y && equalAll xs ys
  | _, _ => false

/-- Every member of the first list has an equal one under the same key in the second. -/
def equalMembers : List (Text × Value) → List (Text × Value) → Bool
  | [], _ => true
  | (k, v) :: ms, ns => (match ns.lookup k with
    | some w => equal v w
    | none => false) && equalMembers ms ns

end

end TreePath.Value
