import TreePath.Query.Match

/-!
# Outcomes

What a walk along a path amounts to: its entries in order, the number of absences met on the way (those inside filters
included), and for each token of the path the number of times it was visited. Outcomes are joined entry list to entry
list and count to count.
-/

namespace TreePath

/-- Sums counts place by place; a place that one list lacks counts as zero there. -/
def sumCounts : List Nat → List Nat → List Nat
  | [], ns => ns
  | ms, [] => ms
  | m :: ms, n :: ns => (m + n) :: sumCounts ms ns

theorem getD_sumCounts (ms ns : List Nat) (i : Nat) :
    (sumCounts ms ns).getD i 0 = ms.getD i 0 + ns.getD i 0 := by
  fun_induction sumCounts ms ns generalizing i with
  | case1 => simp
  | case2 => simp
  | case3 m ms n ns ih => cases i <;> simp_all

structure Outcome where
  entries : List Match
  absent : Nat
  visits : List Nat

namespace Outcome

def empty : Outcome := ⟨[], 0, []⟩

def arrive (v : Value) : Outcome := ⟨[Match.arrive v], 0, []⟩

def absence : Outcome := ⟨[.absent], 1, []⟩

def append (a b : Outcome) : Outcome := ⟨a.entries ++ b.entries, a.absent + b.absent, sumCounts a.visits b.visits⟩

instance : Append Outcome := ⟨append⟩

def join (os : List Outcome) : Outcome := os.foldr append empty

/-- The walk so far counts as one visit of the token in front. -/
def visited (o : Outcome) : Outcome := { o with visits := 1 :: o.visits }

/-- Only the absences of a walk that was made to test something. -/
def aside (o : Outcome) : Outcome := ⟨[], o.absent, []⟩

/-- The entries as one slot: a list, or the bare entry of a walk that leads to exactly one. -/
def slot (bare : Bool) (o : Outcome) : Outcome :=
  { o with entries := if bare then o.entries.take 1 else [.slot o.entries] }

/-! ## Entries, absences and visits of a joined outcome -/

@[simp] theorem entries_append (a b : Outcome) : (a ++ b).entries = a.entries ++ b.entries := rfl

@[simp] theorem absent_append (a b : Outcome) : (a ++ b).absent = a.absent + b.absent := rfl

@[simp] theorem visits_append (a b : Outcome) : (a ++ b).visits = sumCounts a.visits b.visits := rfl

theorem join_cons (o : Outcome) (os : List Outcome) : join (o :: os) = o ++ join os := rfl

theorem entries_join (os : List Outcome) : (join os).entries = os.flatMap entries := by
  induction os with
  | nil => rfl
  | cons o os ih => rw [join_cons, entries_append, ih, List.flatMap_cons]

@[simp] theorem entries_visited (o : Outcome) : o.visited.entries = o.entries := rfl

@[simp] theorem absent_visited (o : Outcome) : o.visited.absent = o.absent := rfl

@[simp] theorem entries_aside (o : Outcome) : o.aside.entries = [] := rfl

@[simp] theorem absent_aside (o : Outcome) : o.aside.absent = o.absent := rfl

@[simp] theorem absent_slot (bare : Bool) (o : Outcome) : (o.slot bare).absent = o.absent := rfl

@[simp] theorem visits_slot (bare : Bool) (o : Outcome) : (o.slot bare).visits = o.visits := rfl

end Outcome

end TreePath
