import Mathlib.Logic.Function.Iterate
import TreePath.Proofs.Moves

/-!
# Descents

A descent finds what a recursion in pre-order finds: at each node that has a member under the key, the entries of the
rest of the path from that member, and then what is found below each child (`entries_run_descend`).

It is also what a loop with a stack finds, which takes the last node off the stack and puts its children there in
reverse order (`Descent.step`). One step turns the stack of the nodes `v :: todo` into the stack of
`v.children ++ todo` (`Descent.step_stackOf`); so the loop ends after as many steps as there are nodes, it has then
visited each of them once in pre-order, and it has walked the rest of the path once for each node that has the member
(`Descent.iterate_step`).
-/

namespace TreePath

namespace Value

/-! ## Gathering over the nodes of a value -/

section Gathering

variable {α : Type} (f : Value → List α)

mutual

/-- What `f` gives at each node of a value, a node before the nodes below it, children in their order. -/
def gather : Value → List α
  | .list xs => f (.list xs) ++ gatherAll xs
  | .tuple xs => f (.tuple xs) ++ gatherAll xs
  | .object ms => f (.object ms) ++ gatherMembers ms
  | v => f v

def gatherAll : List Value → List α
  | [] => []
  | x :: xs => gather x ++ gatherAll xs

def gatherMembers : List (Text × Value) → List α
  | [] => []
  | (_, v) :: ms => gather v ++ gatherMembers ms

end

theorem gatherAll_eq_flatMap (xs : List Value) : gatherAll f xs = xs.flatMap (gather f) := by
  induction xs with
  | nil => rfl
  | cons x xs ih => rw [gatherAll, List.flatMap_cons, ih]

theorem gatherMembers_eq_flatMap (ms : List (Text × Value)) :
    gatherMembers f ms = (ms.map Prod.snd).flatMap (gather f) := by
  induction ms with
  | nil => rfl
  | cons m ms ih => rw [gatherMembers, List.map_cons, List.flatMap_cons, ih]

/-- The node itself comes first, and then what is below each child. -/
theorem gather_eq (v : Value) : v.gather f = f v ++ v.children.flatMap (gather f) := by
  cases v with
  | list xs => rw [gather, gatherAll_eq_flatMap]; rfl
  | tuple xs => rw [gather, gatherAll_eq_flatMap]; rfl
  | object ms => rw [gather, gatherMembers_eq_flatMap]; rfl
  | _ => exact (List.append_nil _).symm

/-- Instead of a node and the nodes below it, the node may be followed by its children, ahead of the nodes to come. -/
theorem flatMap_gather_cons (v : Value) (todo : List Value) :
    (v :: todo).flatMap (gather f) = f v ++ (v.children ++ todo).flatMap (gather f) := by
  rw [List.flatMap_cons, gather_eq, List.flatMap_append, List.append_assoc]

end Gathering

/-! ## Nodes to come -/

theorem nodes_eq (v : Value) : v.nodes = nodesAll v.children + 1 := by
  cases v <;> simp [nodes, children, children?, nodesAll, nodesAll_map_snd]

theorem nodesAll_cons (v : Value) (todo : List Value) : nodesAll (v :: todo) = nodesAll (v.children ++ todo) + 1 := by
  rw [nodesAll, nodes_eq, nodesAll_append]
  omega

/-- Induction on nodes to come, where a node gives way to its children. -/
theorem induction_todo {P : List Value → Prop} (nil : P [])
    (cons : ∀ v todo, P (v.children ++ todo) → P (v :: todo)) : ∀ todo, P todo
  | [] => nil
  | v :: todo => cons v todo (induction_todo nil cons (v.children ++ todo))
termination_by todo => nodesAll todo
decreasing_by
  rw [nodesAll_cons]
  exact Nat.lt_succ_self _

/-- All nodes of a value in pre-order. -/
def subvalues (v : Value) : List Value := v.gather fun node => [node]

theorem flatMap_subvalues_cons (v : Value) (todo : List Value) :
    (v :: todo).flatMap subvalues = v :: (v.children ++ todo).flatMap subvalues := flatMap_gather_cons _ v todo

/-- Each node is listed once. -/
theorem length_flatMap_subvalues (todo : List Value) : (todo.flatMap subvalues).length = nodesAll todo := by
  induction todo using induction_todo with
  | nil => rfl
  | cons v todo ih => rw [nodesAll_cons, ← ih, flatMap_subvalues_cons, List.length_cons]

/-- To gather is to go through the list of all nodes. -/
theorem flatMap_gather {α : Type} (f : Value → List α) (todo : List Value) :
    todo.flatMap (gather f) = (todo.flatMap subvalues).flatMap f := by
  induction todo using induction_todo with
  | nil => rfl
  | cons v todo ih => rw [flatMap_gather_cons, ih, flatMap_subvalues_cons, List.flatMap_cons]

theorem gather_eq_flatMap {α : Type} (f : Value → List α) (v : Value) : v.gather f = v.subvalues.flatMap f := by
  have h := flatMap_gather f [v]
  rwa [List.flatMap_singleton, List.flatMap_singleton] at h

theorem membersBelow_eq_flatMap (key : Text) (todo : List Value) :
    membersBelow key todo = (todo.flatMap subvalues).flatMap fun node => (node.member? key).toList := by
  induction todo using induction_todo with
  | nil => rw [membersBelow]; rfl
  | cons v todo ih => rw [membersBelow, ih, flatMap_subvalues_cons, List.flatMap_cons]

/-- Whether the value is an object with a member under the key. -/
def hasMember (key : Text) (v : Value) : Bool := (v.member? key).isSome

end Value

/-! ## The loop -/

/-- A descent under way: the nodes on the stack, the next one last; the nodes that were visited, in order; how often
the rest of the path was walked; and what these walks came to. -/
structure Descent where
  stack : List Value
  visited : List Value
  walks : Nat
  outcome : Outcome

namespace Descent

def start (v : Value) : Descent := ⟨[v], [], 0, .empty⟩

variable (key : Text) (k : Value → Outcome)

/-- Takes a node off the stack, walks on from its member under the key if it has one, and puts its children onto the
stack. -/
def step (d : Descent) : Descent :=
  match d.stack.getLast? with
  | none => d
  | some node =>
    let next : Descent := { d with
      stack := d.stack.dropLast ++ node.children.reverse
      visited := d.visited ++ [node] }
    match node.member? key with
    | none => next
    | some w => { next with walks := d.walks + 1, outcome := d.outcome ++ k w }

/-- What follows from a node: the walk from its member under the key, if it has one. -/
def walksAt (node : Value) : List Outcome := (node.member? key).toList.map k

theorem flatMap_entries_walksAt (node : Value) :
    (walksAt key k node).flatMap Outcome.entries = (node.member? key).elim [] fun w => (k w).entries := by
  unfold walksAt
  cases node.member? key with
  | none => rfl
  | some w => exact List.append_nil _

/-- The stack of the nodes to come. -/
theorem step_stackOf (v : Value) (todo visited : List Value) (n : Nat) (o : Outcome) :
    step key k ⟨(v :: todo).reverse, visited, n, o⟩ =
      ⟨(v.children ++ todo).reverse, visited ++ [v], n + (walksAt key k v).length, o ++ .join (walksAt key k v)⟩ := by
  unfold step
  simp only [List.reverse_cons, List.getLast?_concat, List.dropLast_concat, List.reverse_append, walksAt]
  cases v.member? key with
  | none => simp [Outcome.join_nil]
  | some w => simp [Outcome.join_singleton]

/-- After as many steps as there are nodes, all of them were visited, and nothing is left on the stack. -/
theorem iterate_step (todo : List Value) (visited : List Value) (n : Nat) (o : Outcome) :
    (step key k)^[Value.nodesAll todo] ⟨todo.reverse, visited, n, o⟩ =
      ⟨[], visited ++ todo.flatMap Value.subvalues,
        n + ((todo.flatMap Value.subvalues).flatMap (walksAt key k)).length,
        o ++ .join ((todo.flatMap Value.subvalues).flatMap (walksAt key k))⟩ := by
  induction todo using Value.induction_todo generalizing visited n o with
  | nil => simp [Value.nodesAll, Outcome.join_nil]
  | cons v todo ih =>
    rw [Value.nodesAll_cons, Function.iterate_succ_apply, step_stackOf, ih, Value.flatMap_subvalues_cons]
    simp only [List.flatMap_cons, List.append_assoc, List.cons_append, List.nil_append, List.length_append,
      Nat.add_assoc, Outcome.append_assoc, Outcome.join_append]

/-- The stack is empty from then on, and not before. -/
theorem stack_iterate_eq_nil_iff (m : Nat) (todo : List Value) (visited : List Value) (n : Nat) (o : Outcome) :
    ((step key k)^[m] ⟨todo.reverse, visited, n, o⟩).stack = [] ↔ Value.nodesAll todo ≤ m := by
  induction m generalizing todo visited n o with
  | zero =>
    cases todo with
    | nil => simp [Value.nodesAll]
    | cons v todo => simp [Value.nodesAll_cons]
  | succ m ih =>
    rw [Function.iterate_succ_apply]
    cases todo with
    | nil => exact (ih [] visited n o).trans (by simp [Value.nodesAll])
    | cons v todo =>
      rw [step_stackOf, ih, Value.nodesAll_cons]
      omega

/-- The rest of the path is walked once for each node that has the member. -/
theorem length_flatMap_walksAt (nodes : List Value) :
    (nodes.flatMap (walksAt key k)).length = nodes.countP (Value.hasMember key) := by
  induction nodes with
  | nil => rfl
  | cons node nodes ih =>
    rw [List.flatMap_cons, List.length_append, List.countP_cons, ih, walksAt, Value.hasMember]
    cases node.member? key <;> simp [Nat.add_comm]

end Descent

/-! ## Descents in paths -/

/-- The entries of the rest of a path from the members under `key` of a value and of the nodes below it. -/
def entriesBelow (σ : Scope) (key : Text) (rest : List Token) (v : Value) : List Match :=
  v.gather fun node => (node.member? key).elim [] fun w => (run σ rest w).entries

/-- A descent walks the rest of the path from the member of each node that has one. -/
theorem run_descend (σ : Scope) (key : Text) (key_ne : key ≠ []) (rest : List Token) (v : Value) :
    run σ (.descend key key_ne :: rest) v =
      (Outcome.join (v.subvalues.flatMap (Descent.walksAt key (run σ rest)))).visited := by
  show Outcome.visited (.join ((v.descend key).map (run σ rest))) = _
  rw [Value.descend, Value.membersBelow_eq_flatMap, List.flatMap_singleton, List.map_flatMap]
  rfl

/-- **The loop of a descent is the recursion in pre-order.** The entries of a descent are those of the rest of the path
from the member of the node itself, followed by those below each child, and nothing else. The loop with a stack takes
one step for each node and visits them in pre-order; it comes to the outcome of the descent, having walked the rest of
the path once for each node with a member under the key. -/
theorem entries_run_descend (σ : Scope) (key : Text) (key_ne : key ≠ []) (rest : List Token) (v : Value) :
    (run σ (.descend key key_ne :: rest) v).entries = entriesBelow σ key rest v ∧
    (∀ node : Value, entriesBelow σ key rest node =
      ((node.member? key).elim [] fun w => (run σ rest w).entries) ++
        node.children.flatMap (entriesBelow σ key rest)) ∧
    v.subvalues.length = v.nodes ∧
    (∀ m, ((Descent.step key (run σ rest))^[m] (.start v)).stack = [] ↔ v.nodes ≤ m) ∧
    ∃ o : Outcome, run σ (.descend key key_ne :: rest) v = o.visited ∧
      (Descent.step key (run σ rest))^[v.nodes] (.start v) =
        ⟨[], v.subvalues, v.subvalues.countP (Value.hasMember key), o⟩ := by
  have hone : Value.nodesAll [v] = v.nodes := Nat.add_zero _
  refine ⟨?_, fun node => Value.gather_eq _ node, ?_, fun m => ?_, _, run_descend σ key key_ne rest v, ?_⟩
  · rw [run_descend, Outcome.entries_visited, Outcome.entries_join, List.flatMap_assoc, entriesBelow,
      Value.gather_eq_flatMap]
    simp only [Descent.flatMap_entries_walksAt]
  · have h := Value.length_flatMap_subvalues [v]
    rwa [List.flatMap_singleton, hone] at h
  · rw [← hone]
    exact Descent.stack_iterate_eq_nil_iff key (run σ rest) m [v] [] 0 .empty
  · have h := Descent.iterate_step key (run σ rest) [v] [] 0 .empty
    rwa [hone, List.flatMap_singleton, Descent.length_flatMap_walksAt, Nat.zero_add, List.nil_append,
      Outcome.empty_append] at h

/-- A member in the root, one beside it further down, and one inside the first: the match of the root comes first, then
those below its children in the order of these. The loop takes six steps and walks the rest three times. -/
theorem entries_run_descend_nested :
    let key : Text := chars ['a']
    let inner : Value := .list [.object [(key, .null)]]
    let v : Value := .object [(chars ['b'], .object [(key, .bool true)]), (key, inner)]
    ∃ key_ne : key ≠ [],
      (run ⟨.flat, .null, v⟩ [.descend key key_ne] v).entries = [.found inner, .found (.bool true), .found .null] ∧
      ((Descent.step key (run ⟨.flat, .null, v⟩ []))^[6] (.start v)).stack = [] ∧
      ((Descent.step key (run ⟨.flat, .null, v⟩ []))^[6] (.start v)).walks = 3 := by
  intro key inner v
  have key_ne : key ≠ [] := List.cons_ne_nil _ _
  obtain ⟨hentries, _, _, hstack, o, _, hloop⟩ := entries_run_descend ⟨.flat, .null, v⟩ key key_ne [] v
  exact ⟨key_ne, hentries.trans rfl, (hstack 6).2 (Nat.le_refl 6), (congrArg Descent.walks hloop).trans rfl⟩

end TreePath
