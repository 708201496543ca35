import TreePath.Query.Run

/-!
# Moves

What a token does at a value, without the rest of the path: a list of *moves*, each of which goes on at some value,
loses the way, or has met absences in a test. A walk is the join of what follows from the moves of its first token
(`Selector.run_eq_join`, and `Token.run_eq_join` where unions are flat), so a law of walks is a law of move lists and
an induction on the path.

Every move leads inside the current value or the root (`Token.inside_of_mem_moves`); where neither holds the marker
`missing`, no move leads to it. What every move of a path keeps holds of all values at the end of a walk where unions
are flat (`entries_of_invariant`).
-/

namespace TreePath

/-! ## Outcomes form a monoid -/

theorem sumCounts_nil (ms : List Nat) : sumCounts ms [] = ms := by cases ms <;> rfl

theorem sumCounts_assoc : ∀ ks ms ns : List Nat,
    sumCounts (sumCounts ks ms) ns = sumCounts ks (sumCounts ms ns)
  | [], _, _ => rfl
  | _ :: _, [], _ => rfl
  | _ :: _, _ :: _, [] => rfl
  | k :: ks, m :: ms, n :: ns => by
    simp only [sumCounts]
    rw [Nat.add_assoc, sumCounts_assoc ks ms ns]

namespace Outcome

@[simp] theorem empty_append (a : Outcome) : empty ++ a = a := by
  obtain ⟨es, n, vs⟩ := a
  show Outcome.mk ([] ++ es) (0 + n) (sumCounts [] vs) = _
  rw [List.nil_append, Nat.zero_add]
  rfl

@[simp] theorem append_empty (a : Outcome) : a ++ empty = a := by
  obtain ⟨es, n, vs⟩ := a
  show Outcome.mk (es ++ []) (n + 0) (sumCounts vs []) = _
  rw [List.append_nil, sumCounts_nil, Nat.add_zero]

theorem append_assoc (a b c : Outcome) : a ++ b ++ c = a ++ (b ++ c) := by
  show Outcome.mk _ _ _ = Outcome.mk _ _ _
  simp only [entries_append, absent_append, visits_append, List.append_assoc, Nat.add_assoc, sumCounts_assoc]

theorem join_nil : join [] = empty := rfl

theorem join_singleton (o : Outcome) : join [o] = o := append_empty o

theorem join_append (as bs : List Outcome) : join (as ++ bs) = join as ++ join bs := by
  induction as with
  | nil => rw [List.nil_append, join_nil, empty_append]
  | cons a as ih => rw [List.cons_append, join_cons, join_cons, ih, append_assoc]

/-- Joining what several lists give, list by list or all at once. -/
theorem join_map_flatMap {α β : Type} (f : β → Outcome) (g : α → List β) (xs : List α) :
    join ((xs.flatMap g).map f) = join (xs.map fun x => join ((g x).map f)) := by
  induction xs with
  | nil => rfl
  | cons x xs ih => rw [List.flatMap_cons, List.map_append, join_append, ih, List.map_cons, join_cons]

/-- What holds between outcomes piece by piece holds between the joined outcomes. -/
theorem join_map_rel {α : Type} {R : Outcome → Outcome → Prop} {f g : α → Outcome} {xs : List α}
    (h0 : R empty empty) (ha : ∀ {a a' b b' : Outcome}, R a a' → R b b' → R (a ++ b) (a' ++ b'))
    (h : ∀ x ∈ xs, R (f x) (g x)) : R (join (xs.map f)) (join (xs.map g)) := by
  induction xs with
  | nil => exact h0
  | cons x xs ih =>
    rw [List.map_cons, List.map_cons, join_cons, join_cons]
    exact ha (h x List.mem_cons_self) (ih fun y hy => h y (List.mem_cons_of_mem _ hy))

end Outcome

/-! ## Moves of a token -/

/-- What a token does at a value. -/
inductive Move
  /-- The walk goes on at a value. -/
  | onto (v : Value)
  /-- There is nothing to go on at. -/
  | lost
  /-- A child was tested, and the walk of the test met some absences. -/
  | tested (absent : Nat)

namespace Move

/-- What follows from a move, where `k` is the walk along the rest of the path. -/
def run (k : Value → Outcome) : Move → Outcome
  | .onto v => k v
  | .lost => .absence
  | .tested n => ⟨[], n, []⟩

/-- Moves to several values at once, or none if there is nothing to go on at. -/
def toEach : Option (List Value) → List Move
  | some vs => vs.map .onto
  | none => [.lost]

theorem mem_toEach {vs : Option (List Value)} {w : Value} (h : Move.onto w ∈ toEach vs) : ∃ ws, vs = some ws ∧ w ∈ ws := by
  cases vs with
  | none => simp [toEach] at h
  | some ws =>
    obtain ⟨u, hu, he⟩ := List.mem_map.1 h
    cases he
    exact ⟨ws, rfl, hu⟩

theorem join_toEach (k : Value → Outcome) (vs : Option (List Value)) :
    Outcome.join ((toEach vs).map (run k)) = match vs with
      | some vs => .join (vs.map k)
      | none => .absence := by
  cases vs with
  | none => exact Outcome.join_singleton _
  | some vs =>
    simp only [toEach, List.map_map]
    rfl

end Move

/-- The test of one child by a filter, and the move to it if it is kept. -/
def Move.ofTest (hole : Value) (op : Operator) (literal : Literal) (test : Outcome) (w : Value) : List Move :=
  .tested test.absent :: if test.satisfies hole op literal then [.onto w] else []

theorem Move.mem_ofTest {hole v w : Value} {op : Operator} {literal : Literal} {test : Outcome}
    (h : Move.onto w ∈ Move.ofTest hole op literal test v) : w = v ∧ test.satisfies hole op literal = true := by
  unfold ofTest at h
  split at h <;> simp_all

/-- The moves of a selector. -/
def Selector.moves (σ : Scope) : Selector → Value → List Move
  | .child key, v => Move.toEach (((v.child? key).filter fun w => !w.isMissing).map fun w => [w])
  | .slice bounds, v => Move.toEach (v.elements?.bind bounds.pick?)
  | .wildcard, v => Move.toEach v.children?
  | .filter _ head tail op literal, v =>
    match v.children? with
    | some ws => ws.flatMap fun w => Move.ofTest σ.missing op literal (TreePath.run σ (head :: tail) w) w
    | none => [.lost]

theorem Move.join_ofTest (k : Value → Outcome) (hole : Value) (op : Operator) (literal : Literal) (test : Outcome)
    (w : Value) : Outcome.join ((Move.ofTest hole op literal test w).map (Move.run k)) =
      test.aside ++ if test.satisfies hole op literal then k w else .empty := by
  unfold ofTest
  rw [List.map_cons, Outcome.join_cons]
  split
  · rw [List.map_singleton, Outcome.join_singleton]
    rfl
  · rfl

/-- The walk of a selector is the join of what follows from its moves. -/
theorem Selector.run_eq_join (σ : Scope) (k : Value → Outcome) (s : Selector) (v : Value) :
    s.run σ k v = .join ((s.moves σ v).map (Move.run k)) := by
  cases s with
  | child key =>
    rw [moves, Move.join_toEach]
    simp only [Selector.run]
    cases v.child? key with
    | none => rfl
    | some w =>
      cases hw : w.isMissing with
      | true => simp [Option.filter, hw]
      | false => simp [Option.filter, hw, Outcome.join_singleton]
  | slice bounds => rw [moves, Move.join_toEach]; rfl
  | wildcard => rw [moves, Move.join_toEach]; rfl
  | filter source head tail op literal =>
    rw [run_filter, moves]
    cases v.children? with
    | none => exact (Outcome.join_singleton _).symm
    | some ws =>
      simp only [Outcome.join_map_flatMap, Move.join_ofTest]

/-- The moves of a token where the alternatives of a union follow one after the other. -/
def Token.moves (σ : Scope) : Token → Value → List Move
  | .root, _ => [.onto σ.root]
  | .current, v => [.onto v]
  | .select s, v => s.moves σ v
  | .descend key _, v => (v.descend key).map .onto
  | .union first others, v => (first :: others).flatMap fun s => s.moves σ v

theorem runOthers_eq_join {σ : Scope} (hσ : σ.mode = .flat) (k : Value → Outcome) (single : Bool)
    (ss : List Selector) (v : Value) :
    runOthers σ k single ss v = .join (ss.map fun s => s.run σ k v) := by
  induction ss with
  | nil => rfl
  | cons s ss ih =>
    rw [runOthers, hσ, List.map_cons, Outcome.join_cons, ← ih]

/-- Whether the token is a union. -/
def Token.isUnion : Token → Bool
  | .union .. => true
  | _ => false

/-- Where the token is no union, its walk is the join of what follows from its moves in either mode. -/
theorem Token.run_eq_join_of_not_union {σ : Scope} {t : Token} (ht : t.isUnion = false) (k : Value → Outcome)
    (single : Bool) (v : Value) : t.run σ k single v = .join ((t.moves σ v).map (Move.run k)) := by
  cases t with
  | root => exact (Outcome.join_singleton _).symm
  | current => exact (Outcome.join_singleton _).symm
  | select s => exact s.run_eq_join σ k v
  | descend key key_ne =>
    simp only [moves, List.map_map]
    rfl
  | union first others => cases ht

/-- In flat mode the walk of a token is the join of what follows from its moves. -/
theorem Token.run_eq_join {σ : Scope} (hσ : σ.mode = .flat) (k : Value → Outcome) (single : Bool) (t : Token)
    (v : Value) : t.run σ k single v = .join ((t.moves σ v).map (Move.run k)) := by
  cases ht : t.isUnion with
  | false => exact Token.run_eq_join_of_not_union ht k single v
  | true =>
    cases t <;> cases ht
    rw [Token.run, hσ]
    simp only [runOthers_eq_join hσ, moves, Outcome.join_map_flatMap, ← Selector.run_eq_join]
    rfl

/-- A walk is the join of what follows from the moves of its first token, in flat mode or if that token is no union. -/
theorem run_cons_eq_join_of {σ : Scope} {t : Token} (h : σ.mode = .flat ∨ t.isUnion = false) (ts : List Token)
    (v : Value) : run σ (t :: ts) v = (Outcome.join ((t.moves σ v).map (Move.run (run σ ts)))).visited := by
  rw [run_cons]
  rcases h with hσ | ht
  · rw [Token.run_eq_join hσ]
  · rw [Token.run_eq_join_of_not_union ht]

/-- In flat mode a walk is the join of what follows from the moves of its first token. -/
theorem run_cons_eq_join {σ : Scope} (hσ : σ.mode = .flat) (t : Token) (ts : List Token) (v : Value) :
    run σ (t :: ts) v = (Outcome.join ((t.moves σ v).map (Move.run (run σ ts)))).visited :=
  run_cons_eq_join_of (Or.inl hσ) ts v

/-! ## Nodes inside a value -/

namespace Value

/-- A value, and every node below it. -/
inductive Inside : Value → Value → Prop
  | here (v : Value) : Inside v v
  | deeper {u w v : Value} : w ∈ v.children → Inside u w → Inside u v

theorem Inside.of_child {w v : Value} (h : w ∈ v.children) : Inside w v := .deeper h (.here w)

theorem children_eq {v : Value} {ws : List Value} (h : v.children? = some ws) : v.children = ws := by
  rw [children, h, Option.getD_some]

theorem children_eq_elements {v : Value} {xs : List Value} (h : v.elements? = some xs) : v.children = xs := by
  cases v <;> simp_all [elements?, children, children?]

theorem mem_of_lookup_eq_some {ms : List (Text × Value)} {key : Text} {w : Value} (h : ms.lookup key = some w) :
    (key, w) ∈ ms := by
  obtain ⟨before, behind, rfl, _⟩ := List.lookup_eq_some_iff.1 h
  exact List.mem_append_right _ List.mem_cons_self

theorem mem_of_lookup {ms : List (Text × Value)} {key : Text} {w : Value} (h : ms.lookup key = some w) :
    w ∈ ms.map Prod.snd := List.mem_map_of_mem (mem_of_lookup_eq_some h)

theorem member?_mem {v w : Value} {key : Text} (h : v.member? key = some w) : w ∈ v.children := by
  cases v <;> first | cases h | exact mem_of_lookup h

theorem elementAt?_mem {xs : List Value} {i : Int} {w : Value} (h : elementAt? xs i = some w) : w ∈ xs := by
  unfold elementAt? at h
  split at h
  · exact List.mem_of_getElem? h
  · split at h
    · exact List.mem_of_getElem? h
    · cases h

/-- The child under a key is a child. -/
theorem child?_mem {v w : Value} {key : Key} (h : v.child? key = some w) : w ∈ v.children := by
  cases key with
  | name s => exact member?_mem h
  | index i =>
    obtain ⟨xs, hxs, hw⟩ := Option.bind_eq_some_iff.1 (show v.elements?.bind (elementAt? · i) = some w from h)
    rw [children_eq_elements hxs]
    exact elementAt?_mem hw

theorem inside_of_mem_membersBelow {key : Text} {todo : List Value} {w : Value} (h : w ∈ membersBelow key todo) :
    ∃ v ∈ todo, Inside w v := by
  fun_induction membersBelow key todo with
  | case1 => cases h
  | case2 v todo ih =>
    rcases List.mem_append.1 h with h | h
    · exact ⟨v, List.mem_cons_self, .of_child (member?_mem (Option.mem_toList.1 h))⟩
    · obtain ⟨u, hu, hw⟩ := ih h
      rcases List.mem_append.1 hu with hu | hu
      · exact ⟨v, List.mem_cons_self, .deeper hu hw⟩
      · exact ⟨u, List.mem_cons_of_mem _ hu, hw⟩

theorem inside_of_mem_descend {key : Text} {v w : Value} (h : w ∈ v.descend key) : Inside w v := by
  obtain ⟨u, hu, hw⟩ := inside_of_mem_membersBelow h
  rwa [List.mem_singleton.1 hu] at hw

end Value

theorem mem_of_mem_every {α : Type} {step : Nat} {x : α} : ∀ {skip : Nat} {xs : List α},
    x ∈ every step skip xs → x ∈ xs
  | _, [], h => h
  | 0, _ :: _, h => by
    rcases List.mem_cons.1 h with rfl | h
    · exact List.mem_cons_self
    · exact List.mem_cons_of_mem _ (mem_of_mem_every h)
  | _ + 1, _ :: _, h => List.mem_cons_of_mem _ (mem_of_mem_every h)

theorem Slice.mem_of_pick? {α : Type} {s : Slice} {xs ws : List α} {x : α} (h : s.pick? xs = some ws)
    (hx : x ∈ ws) : x ∈ xs := by
  simp only [pick?] at h
  split at h
  · cases h
  · cases h
    exact List.mem_of_mem_take (List.mem_of_mem_drop (mem_of_mem_every hx))

/-- A selector moves to children of the current value only. -/
theorem Selector.mem_children_of_mem_moves {σ : Scope} {s : Selector} {v w : Value} (h : Move.onto w ∈ s.moves σ v) :
    w ∈ v.children := by
  cases s with
  | child key =>
    obtain ⟨ws, hws, hw⟩ := Move.mem_toEach h
    obtain ⟨u, hu, rfl⟩ := Option.map_eq_some_iff.1 hws
    rw [List.mem_singleton.1 hw]
    exact Value.child?_mem (Option.filter_eq_some_iff.1 hu).1
  | slice bounds =>
    obtain ⟨ws, hws, hw⟩ := Move.mem_toEach h
    obtain ⟨xs, hxs, hp⟩ := Option.bind_eq_some_iff.1 hws
    rw [Value.children_eq_elements hxs]
    exact Slice.mem_of_pick? hp hw
  | wildcard =>
    obtain ⟨ws, hws, hw⟩ := Move.mem_toEach h
    rwa [Value.children_eq hws]
  | filter source head tail op literal =>
    rw [moves] at h
    cases hc : v.children? with
    | none => simp [hc] at h
    | some ws =>
      rw [hc] at h
      obtain ⟨u, hu, hw⟩ := List.mem_flatMap.1 h
      rw [Value.children_eq hc, (Move.mem_ofTest hw).1]
      exact hu

/-- Whether the token leads back to the root. -/
def Token.isRoot : Token → Bool
  | .root => true
  | _ => false

/-- A token moves inside the current value, unless it leads back to the root. -/
theorem Token.inside_of_mem_moves_of_not_root {σ : Scope} {t : Token} (ht : t.isRoot = false) {v w : Value}
    (h : Move.onto w ∈ t.moves σ v) : Value.Inside w v := by
  cases t with
  | root => cases ht
  | current =>
    simp only [moves, List.mem_singleton, Move.onto.injEq] at h
    exact h ▸ .here w
  | select s => exact .of_child (Selector.mem_children_of_mem_moves h)
  | descend key key_ne =>
    obtain ⟨u, hu, he⟩ := List.mem_map.1 h
    cases he
    exact Value.inside_of_mem_descend hu
  | union first others =>
    obtain ⟨s, _, hs⟩ := List.mem_flatMap.1 h
    exact .of_child (Selector.mem_children_of_mem_moves hs)

/-- Every move leads to the root or inside the current value. -/
theorem Token.inside_of_mem_moves {σ : Scope} {t : Token} {v w : Value} (h : Move.onto w ∈ t.moves σ v) :
    w = σ.root ∨ Value.Inside w v := by
  cases ht : t.isRoot with
  | true =>
    cases t <;> cases ht
    exact Or.inl (by simpa [moves] using h)
  | false => exact Or.inr (Token.inside_of_mem_moves_of_not_root ht h)

/-! ## Values without the marker `missing` -/

mutual

/-- Whether the marker `missing` stands somewhere in a value. -/
def Value.hasMissing : Value → Bool
  | .missing => true
  | .list xs => anyMissing xs
  | .tuple xs => anyMissing xs
  | .object ms => anyMemberMissing ms
  | _ => false

def anyMissing : List Value → Bool
  | [] => false
  | x :: xs => x.hasMissing || anyMissing xs

def anyMemberMissing : List (Text × Value) → Bool
  | [] => false
  | (_, v) :: ms => v.hasMissing || anyMemberMissing ms

end

theorem anyMissing_eq_any (xs : List Value) : anyMissing xs = xs.any Value.hasMissing := by
  induction xs with
  | nil => rfl
  | cons x xs ih => rw [anyMissing, List.any_cons, ih]

theorem anyMemberMissing_eq_any (ms : List (Text × Value)) :
    anyMemberMissing ms = (ms.map Prod.snd).any Value.hasMissing := by
  induction ms with
  | nil => rfl
  | cons m ms ih => rw [anyMemberMissing, List.map_cons, List.any_cons, ih]

namespace Value

theorem isMissing_eq_false {v : Value} (h : v.hasMissing = false) : v.isMissing = false := by
  cases v <;> first | rfl | cases h

theorem any_children_hasMissing {v : Value} (h : v.hasMissing = false) : v.children.any hasMissing = false := by
  cases v with
  | list xs => rwa [hasMissing, anyMissing_eq_any] at h
  | tuple xs => rwa [hasMissing, anyMissing_eq_any] at h
  | object ms => rwa [hasMissing, anyMemberMissing_eq_any] at h
  | _ => rfl

theorem Inside.hasMissing_eq_false {w v : Value} (h : Inside w v) (hv : v.hasMissing = false) :
    w.hasMissing = false := by
  induction h with
  | here => exact hv
  | deeper hw _ ih => exact ih (Bool.eq_false_iff.2 fun hm =>
      Bool.false_ne_true ((any_children_hasMissing hv).symm.trans (List.any_eq_true.2 ⟨_, hw, hm⟩)))

end Value

/-- Moves do not lead to the marker `missing` if neither the root nor the current value holds it. -/
theorem Token.hasMissing_eq_false_of_mem_moves {σ : Scope} {t : Token} {v w : Value} (h : Move.onto w ∈ t.moves σ v)
    (hr : σ.root.hasMissing = false) (hv : v.hasMissing = false) : w.hasMissing = false := by
  rcases Token.inside_of_mem_moves h with rfl | h
  · exact hr
  · exact h.hasMissing_eq_false hv

/-! ## Invariants of flat walks -/

/-- What each move of a path keeps holds of the values at its end; nothing but values and absences is found there. -/
theorem entries_of_invariant {σ : Scope} (hσ : σ.mode = .flat) {I : Value → Prop} : ∀ {ts : List Token},
    (∀ t ∈ ts, ∀ {v w : Value}, I v → Move.onto w ∈ t.moves σ v → I w) → ∀ {v : Value}, I v →
      ∀ e ∈ (run σ ts v).entries, e = .absent ∨ ∃ w, I w ∧ e = .found w
  | [], _, v, hv, e, he => by
    rw [run_nil, Outcome.arrive, List.mem_singleton] at he
    subst he
    unfold Match.arrive
    split
    · exact Or.inl rfl
    · exact Or.inr ⟨v, hv, rfl⟩
  | t :: ts, hstep, v, hv, e, he => by
    rw [run_cons_eq_join hσ, Outcome.entries_visited, Outcome.entries_join] at he
    obtain ⟨o, ho, he⟩ := List.mem_flatMap.1 he
    obtain ⟨m, hm, rfl⟩ := List.mem_map.1 ho
    cases m with
    | onto w =>
      have hw : I w := hstep t List.mem_cons_self hv hm
      exact entries_of_invariant hσ (fun u hu => hstep u (List.mem_cons_of_mem _ hu)) hw e he
    | lost => exact Or.inl (List.mem_singleton.1 he)
    | tested n => cases he

end TreePath
