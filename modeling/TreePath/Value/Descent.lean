import TreePath.Value.Basic

/-!
# Descent

The members under one key at any depth of a value, in pre-order: the member of a node before those found below the
node, siblings in order. `membersBelow` walks with a list of nodes that are still to be visited; each node is visited
once. `preorder` says the same by recursion on the value, and `membersBelow_eq` that they agree.
-/

namespace TreePath.Value

/-- The members under `key` of the nodes to be visited and of everything below them. -/
def membersBelow (key : Text) : (todo : List Value) → List Value
  | [] => []
  | v :: todo => (v.member? key).toList ++ membersBelow key (v.children ++ todo)
termination_by todo => nodesAll todo
decreasing_by
  simp only [nodesAll_append, nodesAll]
  have := nodesAll_children v
  omega

/-- The members under `key` at any depth of `v`, itself included. -/
def descend (key : Text) (v : Value) : List Value := membersBelow key [v]

/-! ## The recursive definition -/

mutual

/-- The member of `v` under `key`, and then the members under `key` below each child. -/
def preorder (key : Text) : Value → List Value
  | .object ms => (ms.lookup key).toList ++ preorderMembers key ms
  | .list xs => preorderAll key xs
  | .tuple xs => preorderAll key xs
  | _ => []

def preorderAll (key : Text) : List Value → List Value
  | [] => []
  | x :: xs => preorder key x ++ preorderAll key xs

def preorderMembers (key : Text) : List (Text × Value) → List Value
  | [] => []
  | (_, v) :: ms => preorder key v ++ preorderMembers key ms

end

theorem preorderAll_append (key : Text) (xs ys : List Value) :
    preorderAll key (xs ++ ys) = preorderAll key xs ++ preorderAll key ys := by
  induction xs <;> simp [preorderAll, *]

theorem preorderAll_map_snd (key : Text) (ms : List (Text × Value)) :
    preorderAll key (ms.map Prod.snd) = preorderMembers key ms := by
  induction ms with
  | nil => rfl
  | cons m ms ih => simp [preorderAll, preorderMembers, ih]

theorem preorder_eq (key : Text) (v : Value) :
    preorder key v = (v.member? key).toList ++ preorderAll key v.children := by
  cases v <;> simp [preorder, member?, children, children?, preorderAll, preorderAll_map_snd]

theorem membersBelow_eq (key : Text) (todo : List Value) : membersBelow key todo = preorderAll key todo := by
  fun_induction membersBelow key todo with
  | case1 => simp [preorderAll]
  | case2 v todo ih => rw [ih, preorderAll_append, preorderAll, preorder_eq, List.append_assoc]

end TreePath.Value
