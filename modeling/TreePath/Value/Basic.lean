import TreePath.Number.Basic

/-!
# Values

What a document is made of: JSON values, with tuples beside lists and numbers beyond JSON's, and objects of a foreign
kind. Two markers may also stand where a value does: `missing`, which says that navigation failed, and `openEnd`, the
end of a slice that reaches to the end of its array.
-/

namespace TreePath

inductive Value
  | null
  | bool (b : Bool)
  | number (x : Number)
  | string (s : Text)
  | list (xs : List Value)
  | tuple (xs : List Value)
  /-- An object keeps its members in the order of their insertion; its keys are distinct. -/
  | object (members : List (Text × Value))
  | foreign (name : Text)
  | missing
  | openEnd
  deriving Inhabited

inductive Kind
  | null
  | bool
  | number
  | string
  | array
  | object
  deriving DecidableEq

namespace Value

def int (n : Int) : Value := .number (.int n)

/-- The JSON kind of a value; foreign objects and markers have none. -/
def kind? : Value → Option Kind
  | .null => some .null
  | .bool _ => some .bool
  | .number _ => some .number
  | .string _ => some .string
  | .list _ => some .array
  | .tuple _ => some .array
  | .object _ => some .object
  | .foreign _ => none
  | .missing => none
  | .openEnd => none

def isMissing : Value → Bool
  | .missing => true
  | _ => false

def isNull : Value → Bool
  | .null => true
  | _ => false

/-- Whether two values are one and the same marker. -/
def sameMarker : Value → Value → Bool
  | .missing, .missing => true
  | .openEnd, .openEnd => true
  | _, _ => false

/-! ## Children -/

/-- The elements of an array. -/
def elements? : Value → Option (List Value)
  | .list xs => some xs
  | .tuple xs => some xs
  | _ => none

/-- The children of a collection, in order; other values have no children to speak of. -/
def children? : Value → Option (List Value)
  | .list xs => some xs
  | .tuple xs => some xs
  | .object members => some (members.map Prod.snd)
  | _ => none

def children (v : Value) : List Value := v.children?.getD []

def isCollection (v : Value) : Bool := v.children?.isSome

/-- The member of an object under a key. -/
def member? : Value → Text → Option Value
  | .object members, key => members.lookup key
  | _, _ => none

/-- The element at an index; negative indices count from the end. -/
def elementAt? (xs : List Value) (i : Int) : Option Value :=
  if 0 ≤ i then xs[i.toNat]? else if -(xs.length : Int) ≤ i then xs[(i + xs.length).toNat]? else none

def element? (v : Value) (i : Int) : Option Value := v.elements?.bind (elementAt? · i)

/-! ## Size -/

mutual

/-- The number of nodes of a value, itself included. -/
def nodes : Value → Nat
  | .list xs => nodesAll xs + 1
  | .tuple xs => nodesAll xs + 1
  | .object members => nodesMembers members + 1
  | _ => 1

def nodesAll : List Value → Nat
  | [] => 0
  | x :: xs => nodes x + nodesAll xs

def nodesMembers : List (Text × Value) → Nat
  | [] => 0
  | (_, v) :: ms => nodes v + nodesMembers ms

end

theorem nodesAll_append (xs ys : List Value) : nodesAll (xs ++ ys) = nodesAll xs + nodesAll ys := by
  induction xs with
  | nil => simp [nodesAll]
  | cons x xs ih => simp [nodesAll, ih]; omega

theorem nodesAll_map_snd (ms : List (Text × Value)) : nodesAll (ms.map Prod.snd) = nodesMembers ms := by
  induction ms with
  | nil => rfl
  | cons m ms ih => simp [nodesAll, nodesMembers, ih]

/-- The children of a value have one node less than the value. -/
theorem nodesAll_children (v : Value) : nodesAll v.children < v.nodes := by
  cases v <;> simp [children, children?, nodes, nodesAll, nodesAll_map_snd]

/-! ## Truth -/

/-- Whether a value counts as true where a truth value is wanted: zero, what is empty, `null` and `missing` do not. -/
def truthy : Value → Bool
  | .null => false
  | .bool b => b
  | .number x => !x.isZero
  | .string s => !s.isEmpty
  | .list xs => !xs.isEmpty
  | .tuple xs => !xs.isEmpty
  | .object ms => !ms.isEmpty
  | .foreign _ => true
  | .missing => false
  | .openEnd => true

end Value

end TreePath
