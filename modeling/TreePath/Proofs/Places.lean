import TreePath.Proofs.Descending
import TreePath.Proofs.Rendering

/-!
# Places of matches

A node of a value is found again by the positions of the children on the way to it (`Value.nodeAt?`). `findings` walks
along a path as `run` does and notes where it is: a selector picks some of the numbered children of a value in their
order (`Selector.sublist_picks`), a descent goes through the nodes of a value with their positions (`Value.addressed`),
and the places of two walks, one behind the other, are put behind each other. Where unions are flat or there are none,
the values that `findings` finds are the present entries of the walk, in their order (`present_eq_findings`), and the
place of each leads to it (`node?_of_mem_findings`).
-/

namespace TreePath

/-! ## Positions -/

namespace Value

/-- The children of a value with their positions. -/
def numbered (v : Value) : List (Value × Nat) := v.children.zipIdx

/-- The node that is reached by the positions of the children on the way. -/
def nodeAt? : Value → List Nat → Option Value
  | v, [] => some v
  | v, i :: is => v.children[i]?.bind fun w => nodeAt? w is

theorem nodeAt?_append (v : Value) (is js : List Nat) :
    v.nodeAt? (is ++ js) = (v.nodeAt? is).bind fun w => w.nodeAt? js := by
  induction is generalizing v with
  | nil => rfl
  | cons i is ih =>
    simp only [List.cons_append, nodeAt?]
    cases v.children[i]? with
    | none => rfl
    | some w => exact ih w

theorem nodeAt?_singleton (v : Value) (i : Nat) : v.nodeAt? [i] = v.children[i]? := by
  simp only [nodeAt?]
  cases v.children[i]? <;> rfl

theorem children_getElem?_of_mem_numbered {v : Value} {x : Value × Nat} (h : x ∈ v.numbered) :
    v.children[x.2]? = some x.1 := List.mem_zipIdx_iff_getElem?.1 h

theorem map_fst_numbered (v : Value) : v.numbered.map Prod.fst = v.children := List.zipIdx_map_fst 0 v.children

/-- The position of an index among `n` elements; negative indices count from the end. -/
def indexPosition? (n : Nat) (i : Int) : Option Nat :=
  if 0 ≤ i then if i.toNat < n then some i.toNat else none
  else if -(n : Int) ≤ i then some (i + n).toNat else none

/-- The position of the child under a key. -/
def position? : Value → Key → Option Nat
  | .object ms, .name s => ms.findIdx? fun m => s == m.1
  | .list xs, .index i => indexPosition? xs.length i
  | .tuple xs, .index i => indexPosition? xs.length i
  | _, _ => none

theorem elementAt?_eq_position (xs : List Value) (i : Int) :
    elementAt? xs i = (indexPosition? xs.length i).bind fun j => xs[j]? := by
  unfold elementAt? indexPosition?
  split
  · split
    · rfl
    · rename_i hlt
      exact List.getElem?_eq_none (Nat.le_of_not_lt hlt)
  · split <;> rfl

theorem lookup_eq_position (ms : List (Text × Value)) (s : Text) :
    ms.lookup s = (ms.findIdx? fun m => s == m.1).bind fun j => (ms.map Prod.snd)[j]? := by
  induction ms with
  | nil => rfl
  | cons m ms ih =>
    rw [List.lookup_cons, List.findIdx?_cons]
    cases s == m.1 with
    | true => rfl
    | false =>
      rw [if_neg Bool.false_ne_true, Option.bind_map]
      exact ih

/-- The child under a key is the child at its position. -/
theorem child?_eq_position (v : Value) (key : Key) :
    v.child? key = (v.position? key).bind fun i => v.children[i]? := by
  cases key with
  | name s =>
    cases v with
    | object ms => exact lookup_eq_position ms s
    | _ => rfl
  | index i =>
    cases v with
    | list xs => exact elementAt?_eq_position xs i
    | tuple xs => exact elementAt?_eq_position xs i
    | _ => rfl

/-- The child under a key, with its position. -/
def numberedChild? (v : Value) (key : Key) : Option (Value × Nat) :=
  (v.position? key).bind fun i => v.children[i]?.map fun w => (w, i)

theorem map_fst_numberedChild? (v : Value) (key : Key) : (v.numberedChild? key).map Prod.fst = v.child? key := by
  rw [child?_eq_position, numberedChild?]
  cases v.position? key with
  | none => rfl
  | some i =>
    dsimp only [Option.bind_some]
    cases v.children[i]? <;> rfl

theorem numberedChild?_mem {v : Value} {key : Key} {x : Value × Nat} (h : v.numberedChild? key = some x) :
    x ∈ v.numbered := by
  obtain ⟨i, _, hi⟩ := Option.bind_eq_some_iff.1 h
  obtain ⟨w, hw, rfl⟩ := Option.map_eq_some_iff.1 hi
  exact List.mem_zipIdx_iff_getElem?.2 hw

/-! ## The nodes of a value with their positions -/

mutual

/-- All nodes of a value in pre-order, each with the positions of the children on the way to it. -/
def addressed : Value → List (List Nat × Value)
  | .list xs => ([], .list xs) :: addressedFrom 0 xs
  | .tuple xs => ([], .tuple xs) :: addressedFrom 0 xs
  | .object ms => ([], .object ms) :: addressedMembers 0 ms
  | v => [([], v)]

/-- The nodes of values that stand at the positions from `i` on. -/
def addressedFrom (i : Nat) : List Value → List (List Nat × Value)
  | [] => []
  | x :: xs => x.addressed.map (fun a => (i :: a.1, a.2)) ++ addressedFrom (i + 1) xs

def addressedMembers (i : Nat) : List (Text × Value) → List (List Nat × Value)
  | [] => []
  | (_, v) :: ms => v.addressed.map (fun a => (i :: a.1, a.2)) ++ addressedMembers (i + 1) ms

end

/-- The nodes below a numbered child. -/
def addressedAt (x : Value × Nat) : List (List Nat × Value) := x.1.addressed.map fun a => (x.2 :: a.1, a.2)

theorem addressedFrom_eq (i : Nat) (xs : List Value) : addressedFrom i xs = (xs.zipIdx i).flatMap addressedAt := by
  induction xs generalizing i with
  | nil => rfl
  | cons x xs ih => rw [addressedFrom, ih, List.zipIdx_cons, List.flatMap_cons, addressedAt]

theorem addressedMembers_eq (i : Nat) (ms : List (Text × Value)) :
    addressedMembers i ms = ((ms.map Prod.snd).zipIdx i).flatMap addressedAt := by
  induction ms generalizing i with
  | nil => rfl
  | cons m ms ih => rw [addressedMembers, ih, List.map_cons, List.zipIdx_cons, List.flatMap_cons, addressedAt]

/-- The node itself comes first, and then the nodes below each child. -/
theorem addressed_eq (v : Value) : v.addressed = ([], v) :: v.numbered.flatMap addressedAt := by
  cases v with
  | list xs => rw [addressed, addressedFrom_eq]; rfl
  | tuple xs => rw [addressed, addressedFrom_eq]; rfl
  | object ms => rw [addressed, addressedMembers_eq]; rfl
  | _ => rfl

theorem nodes_lt_of_mem_children {v w : Value} (h : w ∈ v.children) : w.nodes < v.nodes := by
  have hle : ∀ {xs : List Value}, w ∈ xs → w.nodes ≤ nodesAll xs := by
    intro xs hw
    induction xs with
    | nil => cases hw
    | cons x xs ih =>
      rw [nodesAll]
      rcases List.mem_cons.1 hw with rfl | hw
      · exact Nat.le_add_right _ _
      · exact Nat.le_trans (ih hw) (Nat.le_add_left _ _)
  exact Nat.lt_of_le_of_lt (hle h) (nodesAll_children v)

/-- Induction on the nodes of a value: what holds of a node if it holds of its children holds of every value. -/
theorem induction_children {P : Value → Prop} (h : ∀ v, (∀ w ∈ v.children, P w) → P v) (v : Value) : P v :=
  h v fun w _ => induction_children h w
termination_by v.nodes
decreasing_by
  rename_i hw
  exact nodes_lt_of_mem_children hw

/-- Without their positions, these are the nodes of the value. -/
theorem map_snd_addressed (v : Value) : v.addressed.map Prod.snd = v.subvalues := by
  induction v using induction_children with
  | h v ih =>
    have hchildren : v.numbered.flatMap (fun x => (addressedAt x).map Prod.snd) = v.children.flatMap subvalues := by
      rw [← map_fst_numbered, List.flatMap_map]
      apply List.flatMap_congr
      intro x hx
      rw [addressedAt, List.map_map]
      exact ih x.1 (List.mem_of_getElem? (children_getElem?_of_mem_numbered hx))
    rw [addressed_eq, List.map_cons, List.map_flatMap, hchildren, subvalues, gather_eq]
    rfl

theorem nodeAt?_of_mem_addressed {v : Value} : ∀ a ∈ v.addressed, v.nodeAt? a.1 = some a.2 := by
  induction v using induction_children with
  | h v ih =>
    intro a ha
    rw [addressed_eq] at ha
    rcases List.mem_cons.1 ha with rfl | ha
    · rfl
    · obtain ⟨x, hx, ha⟩ := List.mem_flatMap.1 ha
      obtain ⟨b, hb, rfl⟩ := List.mem_map.1 ha
      have hchild := children_getElem?_of_mem_numbered hx
      rw [nodeAt?, hchild]
      exact ih x.1 (List.mem_of_getElem? hchild) b hb

end Value

/-! ## Places -/

/-- Where a node is: the positions of the children on the way to it, from the root of the document or from the value at
which a walk starts. -/
structure Place where
  fromRoot : Bool
  steps : List Nat

namespace Place

/-- A place that is counted from another one, unless it is counted from the root. -/
def behind (p q : Place) : Place := if q.fromRoot then q else ⟨p.fromRoot, p.steps ++ q.steps⟩

/-- The node at a place. -/
def node? (root start : Value) (p : Place) : Option Value := (if p.fromRoot then root else start).nodeAt? p.steps

theorem node?_behind {root start w : Value} {p : Place} (hp : p.node? root start = some w) (q : Place) :
    (p.behind q).node? root start = q.node? root w := by
  unfold behind
  cases hq : q.fromRoot with
  | true => simp only [node?, hq, if_true]
  | false =>
    simp only [node?, hq, if_false, Bool.false_eq_true] at hp ⊢
    rw [Value.nodeAt?_append, hp]
    rfl

end Place

/-! ## Moves with their places -/

/-- The value that a move leads to. -/
def Move.target? : Move → Option Value
  | .onto v => some v
  | _ => none

theorem Move.filterMap_target?_toEach (vs : Option (List Value)) :
    (Move.toEach vs).filterMap Move.target? = vs.getD [] := by
  cases vs with
  | none => rfl
  | some vs =>
    rw [toEach, List.filterMap_map]
    exact List.filterMap_some

theorem Move.filterMap_target?_ofTest (hole : Value) (op : Operator) (literal : Literal) (test : Outcome) (w : Value) :
    (Move.ofTest hole op literal test w).filterMap Move.target? =
      if test.satisfies hole op literal then [w] else [] := by
  unfold ofTest
  split <;> rfl

/-- The numbered children that a selector goes on at. -/
def Selector.picks (σ : Scope) : Selector → Value → List (Value × Nat)
  | .child key, v => ((v.numberedChild? key).filter fun x => !x.1.isMissing).toList
  | .slice bounds, v => if v.elements?.isSome then (bounds.pick? v.numbered).getD [] else []
  | .wildcard, v => v.numbered
  | .filter _ head tail op literal, v =>
    v.numbered.filter fun x => (TreePath.run σ (head :: tail) x.1).satisfies σ.missing op literal

/-! ### Slices of lists that are mapped, and as parts of lists -/

theorem map_every {α β : Type} (f : α → β) (step : Nat) : ∀ (skip : Nat) (xs : List α),
    (every step skip xs).map f = every step skip (xs.map f)
  | _, [] => rfl
  | 0, x :: xs => congrArg (f x :: ·) (map_every f step (step - 1) xs)
  | skip + 1, _ :: xs => map_every f step skip xs

theorem every_sublist {α : Type} (step : Nat) : ∀ (skip : Nat) (xs : List α), (every step skip xs).Sublist xs
  | _, [] => .slnil
  | 0, _ :: xs => (every_sublist step (step - 1) xs).cons_cons _
  | skip + 1, _ :: xs => (every_sublist step skip xs).cons _

theorem Slice.map_pick? {α β : Type} (f : α → β) (s : Slice) (xs : List α) :
    (s.pick? xs).map (List.map f) = s.pick? (xs.map f) := by
  simp only [pick?, List.length_map]
  split
  · rfl
  · rw [Option.map_some, map_every, List.map_drop, List.map_take]

theorem Slice.sublist_pick? {α : Type} {s : Slice} {xs ws : List α} (h : s.pick? xs = some ws) : ws.Sublist xs := by
  simp only [pick?] at h
  split at h
  · cases h
  · cases h
    exact (every_sublist _ _ _).trans ((List.drop_sublist _ _).trans (List.take_sublist _ _))

/-! ### What selectors pick -/

/-- A selector picks children of the value in their order, each at most once. -/
theorem Selector.sublist_picks (σ : Scope) (s : Selector) (v : Value) : (s.picks σ v).Sublist v.numbered := by
  cases s with
  | child key =>
    cases h : (v.numberedChild? key).filter fun x => !x.1.isMissing with
    | none => simp only [picks, h, Option.toList_none, List.nil_sublist]
    | some x =>
      simp only [picks, h, Option.toList_some, List.singleton_sublist]
      exact Value.numberedChild?_mem (Option.filter_eq_some_iff.1 h).1
  | slice bounds =>
    rw [picks]
    split
    · cases h : bounds.pick? v.numbered with
      | none => exact List.nil_sublist _
      | some ws => exact Slice.sublist_pick? h
    · exact List.nil_sublist _
  | wildcard => exact List.Sublist.refl _
  | filter source head tail op literal => exact List.filter_sublist

/-- The picked children are those that the moves of the selector lead to. -/
theorem Selector.map_fst_picks (σ : Scope) (s : Selector) (v : Value) :
    (s.picks σ v).map Prod.fst = (s.moves σ v).filterMap Move.target? := by
  cases s with
  | child key =>
    rw [picks, moves, Move.filterMap_target?_toEach, ← Value.map_fst_numberedChild?]
    cases v.numberedChild? key with
    | none => rfl
    | some x => cases h : x.1.isMissing <;> simp [Option.filter, h]
  | slice bounds =>
    rw [picks, moves, Move.filterMap_target?_toEach]
    cases h : v.elements? with
    | none => rfl
    | some xs =>
      have hxs : v.numbered.map Prod.fst = xs := (Value.map_fst_numbered v).trans (Value.children_eq_elements h)
      rw [Option.bind_some, ← hxs, ← Slice.map_pick?]
      cases bounds.pick? v.numbered <;> rfl
  | wildcard =>
    rw [picks, moves, Move.filterMap_target?_toEach, Value.map_fst_numbered]
    rfl
  | filter source head tail op literal =>
    rw [picks, moves]
    cases h : v.children? with
    | none => simp [Value.numbered, Value.children, h, Move.target?]
    | some ws =>
      have hws : v.numbered.map Prod.fst = ws := (Value.map_fst_numbered v).trans (Value.children_eq h)
      dsimp only
      rw [← hws, List.flatMap_map]
      induction v.numbered with
      | nil => rfl
      | cons x xs ih =>
        rw [List.filter_cons, List.flatMap_cons, List.filterMap_append, ← ih, Move.filterMap_target?_ofTest]
        split <;> rfl

/-! ### What tokens lead to -/

/-- Where a token leads to, with places that are counted from the current value. -/
def Token.spots (σ : Scope) : Token → Value → List (Place × Value)
  | .root, _ => [(⟨true, []⟩, σ.root)]
  | .current, v => [(⟨false, []⟩, v)]
  | .select s, v => (s.picks σ v).map fun x => (⟨false, [x.2]⟩, x.1)
  | .descend key _, v => v.addressed.flatMap fun a =>
      (a.2.numberedChild? (.name key)).toList.map fun x => (⟨false, a.1 ++ [x.2]⟩, x.1)
  | .union first others, v => (first :: others).flatMap fun s => (s.picks σ v).map fun x => (⟨false, [x.2]⟩, x.1)

theorem Value.descend_eq_flatMap (key : Text) (v : Value) :
    v.descend key = v.subvalues.flatMap fun node => (node.member? key).toList := by
  rw [descend, membersBelow_eq_flatMap, List.flatMap_singleton]

theorem Token.map_snd_spots (σ : Scope) (t : Token) (v : Value) :
    (t.spots σ v).map Prod.snd = (t.moves σ v).filterMap Move.target? := by
  cases t with
  | root => rfl
  | current => rfl
  | select s =>
    rw [spots, moves, ← Selector.map_fst_picks, List.map_map]
    rfl
  | descend key key_ne =>
    have hmember : ∀ node : Value, ((node.numberedChild? (.name key)).toList.map fun x => x.1) =
        (node.member? key).toList := by
      intro node
      rw [← show node.child? (.name key) = node.member? key from rfl, ← Value.map_fst_numberedChild?]
      cases node.numberedChild? (.name key) <;> rfl
    rw [spots, moves, List.filterMap_map, Value.descend_eq_flatMap, ← Value.map_snd_addressed, List.map_flatMap,
      List.flatMap_map]
    simp only [List.map_map, Function.comp_def, hmember, Move.target?, List.filterMap_some]
  | union first others =>
    rw [spots, moves, List.map_flatMap, List.filterMap_flatMap]
    apply List.flatMap_congr
    intro s _
    rw [← Selector.map_fst_picks, List.map_map]
    rfl

/-- The place of each spot leads from the current value to it. -/
theorem Token.node?_of_mem_spots {σ : Scope} {t : Token} {v : Value} :
    ∀ x ∈ t.spots σ v, x.1.node? σ.root v = some x.2 := by
  have hpick : ∀ (s : Selector), ∀ x ∈ s.picks σ v, v.nodeAt? [x.2] = some x.1 := by
    intro s x hx
    rw [Value.nodeAt?_singleton]
    exact Value.children_getElem?_of_mem_numbered ((s.sublist_picks σ v).mem hx)
  intro x hx
  cases t with
  | root =>
    rw [List.mem_singleton.1 hx]
    rfl
  | current =>
    rw [List.mem_singleton.1 hx]
    rfl
  | select s =>
    obtain ⟨y, hy, rfl⟩ := List.mem_map.1 hx
    exact hpick s y hy
  | descend key key_ne =>
    obtain ⟨a, ha, hx⟩ := List.mem_flatMap.1 hx
    obtain ⟨y, hy, rfl⟩ := List.mem_map.1 hx
    have hnode := Value.nodeAt?_of_mem_addressed a ha
    have hchild := Value.children_getElem?_of_mem_numbered (Value.numberedChild?_mem (Option.mem_toList.1 hy))
    show v.nodeAt? (a.1 ++ [y.2]) = some y.1
    rw [Value.nodeAt?_append, hnode, Option.bind_some, Value.nodeAt?_singleton, hchild]
  | union first others =>
    obtain ⟨s, _, hx⟩ := List.mem_flatMap.1 hx
    obtain ⟨y, hy, rfl⟩ := List.mem_map.1 hx
    exact hpick s y hy

/-! ## Walks with places -/

/-- The values that a walk finds, each with its place, counted from the value at which the walk starts. -/
def findings (σ : Scope) : List Token → Value → List (Place × Value)
  | [], v => if v.isMissing then [] else [(⟨false, []⟩, v)]
  | t :: ts, v => (t.spots σ v).flatMap fun x => (findings σ ts x.2).map fun y => (x.1.behind y.1, y.2)

/-- The entries without the absences. -/
def Outcome.present (o : Outcome) : List Match := o.entries.filter Match.isPresent

theorem Outcome.present_append (a b : Outcome) : (a ++ b).present = a.present ++ b.present := List.filter_append _ _

theorem Outcome.present_visited (o : Outcome) : o.visited.present = o.present := rfl

/-- What follows from moves, as far as it is present, comes from the values that they lead to. -/
theorem present_join_moves (k : Value → Outcome) (ms : List Move) :
    (Outcome.join (ms.map (Move.run k))).present = (ms.filterMap Move.target?).flatMap fun w => (k w).present := by
  induction ms with
  | nil => rfl
  | cons m ms ih =>
    rw [List.map_cons, Outcome.join_cons, Outcome.present_append, ih]
    cases m <;> rfl

/-- The values that `findings` lists are the present entries of the walk, in their order. -/
theorem present_eq_findings {σ : Scope} : ∀ {ts : List Token}, (σ.mode = .flat ∨ ts.any Token.isUnion = false) →
    ∀ v : Value, (run σ ts v).present = (findings σ ts v).map fun x => .found x.2
  | [], _, v => by
    rw [run_nil, Outcome.arrive, Outcome.present, findings, Match.arrive]
    split <;> rfl
  | t :: ts, h, v => by
    have ht : σ.mode = .flat ∨ t.isUnion = false := h.imp_right fun h => (Bool.or_eq_false_iff.1 h).1
    have hts : σ.mode = .flat ∨ ts.any Token.isUnion = false := h.imp_right fun h => (Bool.or_eq_false_iff.1 h).2
    rw [run_cons_eq_join_of ht, Outcome.present_visited, present_join_moves, ← Token.map_snd_spots, findings,
      List.map_flatMap, List.flatMap_map]
    simp only [present_eq_findings hts, List.map_map, Function.comp_def]

/-- The place of each finding leads to it. -/
theorem node?_of_mem_findings {σ : Scope} : ∀ {ts : List Token} {v : Value},
    ∀ x ∈ findings σ ts v, x.1.node? σ.root v = some x.2
  | [], v, x, hx => by
    rw [findings] at hx
    split at hx
    · cases hx
    · rw [List.mem_singleton.1 hx]
      rfl
  | t :: ts, v, x, hx => by
    obtain ⟨y, hy, hx⟩ := List.mem_flatMap.1 hx
    obtain ⟨z, hz, rfl⟩ := List.mem_map.1 hx
    rw [Place.node?_behind (Token.node?_of_mem_spots y hy)]
    exact node?_of_mem_findings z hz

end TreePath
