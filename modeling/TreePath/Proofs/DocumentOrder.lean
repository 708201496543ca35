import TreePath.Proofs.Places

/-!
# Matches in document order

A path without unions that leads back to the root at most at its start and has at most one descent selects no node
twice; and without a descent it selects the nodes in the order of the document (`findings_distinct`).

Both are shown by induction on the path, place by place: places that begin with different positions differ, and stand in
the order of these positions. A descent is no such step, since it finds nodes above each other; there, the places
differ because what the rest of the path adds to them is of one length (`exists_length_steps`).
-/

namespace TreePath

/-- Whether the token is a descent. -/
def Token.isDescent : Token → Bool
  | .descend .. => true
  | _ => false

/-- The positions on the way to each finding of a walk. -/
def stepsOf (σ : Scope) (ts : List Token) (v : Value) : List (List Nat) := (findings σ ts v).map fun x => x.1.steps

/-- The value that the places of a walk are counted from. -/
def origin (σ : Scope) (ts : List Token) (v : Value) : Value := if ts.head?.any Token.isRoot then σ.root else v

/-! ## Lists of positions behind each other -/

/-- Lists that begin with the positions of numbered values, which grow. -/
theorem pairwise_flatMap_cons {R : List Nat → List Nat → Prop}
    (hhead : ∀ {i j : Nat} (is js : List Nat), i < j → R (i :: is) (j :: js))
    (htail : ∀ (i : Nat) {is js : List Nat}, R is js → R (i :: is) (i :: js)) {xs : List (Value × Nat)}
    (hxs : xs.Pairwise fun x y => x.2 < y.2) (f : Value → List (List Nat))
    (hf : ∀ x ∈ xs, (f x.1).Pairwise R) :
    (xs.flatMap fun x => (f x.1).map (x.2 :: ·)).Pairwise R := by
  rw [List.pairwise_flatMap]
  constructor
  · intro x hx
    exact (hf x hx).map _ fun is js h => htail x.2 h
  · apply hxs.imp
    intro x y hlt is hx js hy
    obtain ⟨is, _, rfl⟩ := List.mem_map.1 hx
    obtain ⟨js, _, rfl⟩ := List.mem_map.1 hy
    exact hhead is js hlt

theorem cons_ne_cons_of_lt {i j : Nat} (is js : List Nat) (h : i < j) : i :: is ≠ j :: js := by
  intro he
  exact Nat.ne_of_lt h (List.cons.inj he).1

theorem cons_ne_cons_of_ne (i : Nat) {is js : List Nat} (h : is ≠ js) : i :: is ≠ i :: js := by
  intro he
  exact h (List.cons.inj he).2

/-- Lists of one length behind lists that differ. -/
theorem nodup_flatMap_append {α : Type} {xs : List α} {f : α → List Nat} {g : α → List (List Nat)} {n : Nat}
    (hf : (xs.map f).Nodup) (hg : ∀ x ∈ xs, (g x).Nodup) (hlen : ∀ x ∈ xs, ∀ is ∈ g x, is.length = n) :
    (xs.flatMap fun x => (g x).map (f x ++ ·)).Nodup := by
  rw [List.Nodup, List.pairwise_flatMap]
  constructor
  · intro x hx
    exact List.Pairwise.map _ (fun is js hne he => hne (List.append_cancel_left he)) (hg x hx)
  · apply (List.pairwise_map.1 hf).imp_of_mem
    intro x y hx hy hne is his js hjs he
    obtain ⟨ks, hks, rfl⟩ := List.mem_map.1 his
    obtain ⟨ls, hls, rfl⟩ := List.mem_map.1 hjs
    exact hne (List.append_inj' he ((hlen x hx ks hks).trans (hlen y hy ls hls).symm)).1

/-! ## Numbered children and addressed nodes -/

theorem pairwise_zipIdx {α : Type} : ∀ (xs : List α) (k : Nat), (xs.zipIdx k).Pairwise fun x y => x.2 < y.2
  | [], _ => .nil
  | _ :: xs, k => List.pairwise_cons.2 ⟨fun _ hy => List.le_snd_of_mem_zipIdx hy, pairwise_zipIdx xs (k + 1)⟩

theorem Value.pairwise_numbered (v : Value) : v.numbered.Pairwise fun x y => x.2 < y.2 := pairwise_zipIdx v.children 0

theorem Selector.pairwise_picks (σ : Scope) (s : Selector) (v : Value) :
    (s.picks σ v).Pairwise fun x y => x.2 < y.2 := v.pairwise_numbered.sublist (s.sublist_picks σ v)

/-- No two nodes of a value have one address. -/
theorem Value.nodup_addressed (v : Value) : (v.addressed.map Prod.fst).Nodup := by
  induction v using induction_children with
  | h v ih =>
    have hbelow : (v.numbered.flatMap addressedAt).map Prod.fst =
        v.numbered.flatMap fun x => (x.1.addressed.map Prod.fst).map (x.2 :: ·) := by
      rw [List.map_flatMap]
      simp only [addressedAt, List.map_map, Function.comp_def]
    rw [addressed_eq, List.map_cons, hbelow, List.nodup_cons]
    refine ⟨?_, ?_⟩
    · intro h
      obtain ⟨x, _, hx⟩ := List.mem_flatMap.1 h
      obtain ⟨is, _, he⟩ := List.mem_map.1 hx
      cases he
    · apply pairwise_flatMap_cons cons_ne_cons_of_lt cons_ne_cons_of_ne v.pairwise_numbered
        fun w => w.addressed.map Prod.fst
      intro x hx
      exact ih x.1 (List.mem_of_getElem? (children_getElem?_of_mem_numbered hx))

/-- No two spots of a descent have one place. -/
theorem nodup_spots_descend (σ : Scope) (key : Text) (key_ne : key ≠ []) (v : Value) :
    (((Token.descend key key_ne).spots σ v).map fun x => x.1.steps).Nodup := by
  have hspots : (((Token.descend key key_ne).spots σ v).map fun x => x.1.steps) =
      v.addressed.flatMap fun a =>
        ((a.2.numberedChild? (.name key)).toList.map fun x => [x.2]).map (a.1 ++ ·) := by
    rw [Token.spots, List.map_flatMap]
    simp only [List.map_map, Function.comp_def]
  rw [hspots]
  apply nodup_flatMap_append v.nodup_addressed
  · intro a _
    cases a.2.numberedChild? (.name key) with
    | none => exact List.nodup_nil
    | some x => exact List.pairwise_singleton _ _
  · intro a _ is his
    obtain ⟨x, _, rfl⟩ := List.mem_map.1 his
    exact rfl

/-! ## Places of a walk -/

/-- A token that does not lead to the root counts its places from the current value. -/
theorem Token.fromRoot_of_mem_spots {σ : Scope} {t : Token} {v : Value} :
    ∀ x ∈ t.spots σ v, x.1.fromRoot = t.isRoot := by
  intro x hx
  cases t with
  | root =>
    rw [List.mem_singleton.1 hx]
    rfl
  | current =>
    rw [List.mem_singleton.1 hx]
    rfl
  | select s =>
    obtain ⟨y, _, rfl⟩ := List.mem_map.1 hx
    rfl
  | descend key key_ne =>
    obtain ⟨a, _, hx⟩ := List.mem_flatMap.1 hx
    obtain ⟨y, _, rfl⟩ := List.mem_map.1 hx
    rfl
  | union first others =>
    obtain ⟨s, _, hx⟩ := List.mem_flatMap.1 hx
    obtain ⟨y, _, rfl⟩ := List.mem_map.1 hx
    rfl

theorem fromRoot_of_mem_findings_cons {σ : Scope} {t : Token} {ts : List Token}
    (hts : ∀ w : Value, ∀ z ∈ findings σ ts w, z.1.fromRoot = false) {v : Value} :
    ∀ x ∈ findings σ (t :: ts) v, x.1.fromRoot = t.isRoot := by
  intro x hx
  obtain ⟨y, hy, hx⟩ := List.mem_flatMap.1 hx
  obtain ⟨z, hz, rfl⟩ := List.mem_map.1 hx
  simp only [Place.behind, hts y.2 z hz, Bool.false_eq_true, if_false]
  exact Token.fromRoot_of_mem_spots y hy

/-- Where no token leads to the root, all places are counted from the value at which the walk starts. -/
theorem fromRoot_of_mem_findings {σ : Scope} : ∀ {ts : List Token}, ts.any Token.isRoot = false → ∀ {v : Value},
    ∀ x ∈ findings σ ts v, x.1.fromRoot = false
  | [], _, v, x, hx => by
    rw [findings] at hx
    split at hx
    · cases hx
    · rw [List.mem_singleton.1 hx]
  | t :: ts, h, v, x, hx => by
    obtain ⟨ht, hts⟩ := Bool.or_eq_false_iff.1 (List.any_cons.symm.trans h)
    exact (fromRoot_of_mem_findings_cons (fun _ => fromRoot_of_mem_findings hts) x hx).trans ht

/-- Where only the first token may lead to the root, all places are counted from the origin of the walk. -/
theorem fromRoot_eq_of_mem_findings {σ : Scope} {ts : List Token} (hroot : ts.tail.any Token.isRoot = false)
    {v : Value} : ∀ x ∈ findings σ ts v, x.1.fromRoot = ts.head?.any Token.isRoot := by
  intro x hx
  cases ts with
  | nil => exact fromRoot_of_mem_findings rfl x hx
  | cons t ts => exact fromRoot_of_mem_findings_cons (fun _ => fromRoot_of_mem_findings hroot) x hx

/-- What the rest of a path adds to the places of its first token. -/
theorem stepsOf_cons {σ : Scope} {ts : List Token} (hts : ts.any Token.isRoot = false) (t : Token) (v : Value) :
    stepsOf σ (t :: ts) v = (t.spots σ v).flatMap fun x => (stepsOf σ ts x.2).map (x.1.steps ++ ·) := by
  have hbehind : ∀ x : Place × Value, (findings σ ts x.2).map (fun y => (x.1.behind y.1).steps) =
      (stepsOf σ ts x.2).map (x.1.steps ++ ·) := by
    intro x
    rw [stepsOf, List.map_map]
    apply List.map_congr_left
    intro y hy
    simp only [Place.behind, fromRoot_of_mem_findings hts y hy, Bool.false_eq_true, if_false, Function.comp_apply]
  rw [stepsOf, findings, List.map_flatMap]
  simp only [List.map_map, Function.comp_def, hbehind]

theorem stepsOf_select {σ : Scope} {ts : List Token} (hts : ts.any Token.isRoot = false) (s : Selector) (v : Value) :
    stepsOf σ (.select s :: ts) v = (s.picks σ v).flatMap fun x => (stepsOf σ ts x.1).map (x.2 :: ·) := by
  rw [stepsOf_cons hts, Token.spots, List.flatMap_map]
  rfl

theorem stepsOf_root {σ : Scope} {ts : List Token} (hts : ts.any Token.isRoot = false) (v : Value) :
    stepsOf σ (.root :: ts) v = stepsOf σ ts σ.root := by
  rw [stepsOf_cons hts, Token.spots, List.flatMap_singleton]
  exact List.map_id _

theorem stepsOf_current {σ : Scope} {ts : List Token} (hts : ts.any Token.isRoot = false) (v : Value) :
    stepsOf σ (.current :: ts) v = stepsOf σ ts v := by
  rw [stepsOf_cons hts, Token.spots, List.flatMap_singleton]
  exact List.map_id _

/-! ## Places that differ, and their order -/

theorem any_eq_false_of_suffix {α : Type} {p : α → Bool} {xs ys : List α} (h : xs <:+ ys) (hys : ys.any p = false) :
    xs.any p = false := List.any_eq_false.2 fun x hx => List.any_eq_false.1 hys x (h.mem hx)

theorem suffix_tail_of_cons {α : Type} {x : α} {xs ys : List α} (h : x :: xs <:+ ys) : xs <:+ ys.tail := by
  cases ys with
  | nil => cases List.suffix_nil.1 h
  | cons y ys =>
    rcases List.suffix_cons_iff.1 h with h | h
    · rw [(List.cons.inj h).2]
      exact List.suffix_refl _
    · exact (List.suffix_cons x xs).trans h

variable {σ : Scope}

/-- Without a descent, all places of a walk have one length, which is given by the path. -/
theorem exists_length_steps : ∀ {ts : List Token}, ts.any Token.isUnion = false → ts.tail.any Token.isRoot = false →
    ts.any Token.isDescent = false → ∃ n, ∀ v : Value, ∀ is ∈ stepsOf σ ts v, is.length = n
  | [], _, _, _ => by
    refine ⟨0, fun v is his => ?_⟩
    rw [stepsOf, findings] at his
    split at his
    · cases his
    · rw [List.mem_singleton.1 his]
      rfl
  | t :: ts, hunion, hroot, hdescent => by
    obtain ⟨hu, hus⟩ := Bool.or_eq_false_iff.1 (List.any_cons.symm.trans hunion)
    obtain ⟨hd, hds⟩ := Bool.or_eq_false_iff.1 (List.any_cons.symm.trans hdescent)
    have hts : ts.any Token.isRoot = false := hroot
    obtain ⟨n, hn⟩ := exists_length_steps hus (any_eq_false_of_suffix (List.tail_suffix ts) hts) hds
    cases t with
    | root =>
      refine ⟨n, fun v is his => ?_⟩
      rw [stepsOf_root hts] at his
      exact hn σ.root is his
    | current =>
      refine ⟨n, fun v is his => ?_⟩
      rw [stepsOf_current hts] at his
      exact hn v is his
    | select s =>
      refine ⟨n + 1, fun v is his => ?_⟩
      rw [stepsOf_select hts] at his
      obtain ⟨x, _, hx⟩ := List.mem_flatMap.1 his
      obtain ⟨js, hjs, rfl⟩ := List.mem_map.1 hx
      exact congrArg (· + 1) (hn x.1 js hjs)
    | descend key key_ne => cases hd
    | union first others => cases hu

/-- A relation holds between all places of a walk, an earlier and a later one, if it holds between places that begin
with positions in this order, is not changed by a position in front, and holds after the descents of the path. -/
theorem pairwise_stepsOf {R : List Nat → List Nat → Prop}
    (hhead : ∀ {i j : Nat} (is js : List Nat), i < j → R (i :: is) (j :: js))
    (htail : ∀ (i : Nat) {is js : List Nat}, R is js → R (i :: is) (i :: js)) :
    ∀ {ts : List Token}, ts.any Token.isUnion = false → ts.tail.any Token.isRoot = false →
      (∀ (key : Text) (key_ne : key ≠ []) (rest : List Token), .descend key key_ne :: rest <:+ ts →
        ∀ v : Value, (stepsOf σ (.descend key key_ne :: rest) v).Pairwise R) →
      ∀ v : Value, (stepsOf σ ts v).Pairwise R
  | [], _, _, _, v => by
    rw [stepsOf, findings]
    split
    · exact .nil
    · exact List.pairwise_singleton _ _
  | t :: ts, hunion, hroot, hdescend, v => by
    obtain ⟨hu, hus⟩ := Bool.or_eq_false_iff.1 (List.any_cons.symm.trans hunion)
    have hts : ts.any Token.isRoot = false := hroot
    have ih : ∀ w : Value, (stepsOf σ ts w).Pairwise R :=
      pairwise_stepsOf hhead htail hus (any_eq_false_of_suffix (List.tail_suffix ts) hts) fun key key_ne rest hrest =>
        hdescend key key_ne rest (hrest.trans (List.suffix_cons t ts))
    cases t with
    | root =>
      rw [stepsOf_root hts]
      exact ih σ.root
    | current =>
      rw [stepsOf_current hts]
      exact ih v
    | select s =>
      rw [stepsOf_select hts]
      exact pairwise_flatMap_cons hhead htail (s.pairwise_picks σ v) (stepsOf σ ts) fun x _ => ih x.1
    | descend key key_ne => exact hdescend key key_ne ts (List.suffix_refl _) v
    | union first others => cases hu

/-- The places behind a descent differ if no other descent follows. -/
theorem nodup_stepsOf_descend {ts : List Token} (hunion : ts.any Token.isUnion = false)
    (hroot : ts.any Token.isRoot = false) (hdescent : ts.any Token.isDescent = false) (key : Text) (key_ne : key ≠ [])
    (v : Value) : (stepsOf σ (.descend key key_ne :: ts) v).Nodup := by
  have hnodescend : ∀ (key : Text) (key_ne : key ≠ []) (rest : List Token), ¬ .descend key key_ne :: rest <:+ ts :=
    fun key key_ne rest hrest => List.any_eq_false.1 hdescent _ (hrest.mem List.mem_cons_self) rfl
  obtain ⟨n, hn⟩ := exists_length_steps (σ := σ) hunion (any_eq_false_of_suffix (List.tail_suffix ts) hroot) hdescent
  rw [stepsOf_cons hroot]
  apply nodup_flatMap_append (nodup_spots_descend σ key key_ne v)
  · intro x _
    exact pairwise_stepsOf cons_ne_cons_of_lt cons_ne_cons_of_ne hunion
      (any_eq_false_of_suffix (List.tail_suffix ts) hroot)
      (fun key key_ne rest hrest => absurd hrest (hnodescend key key_ne rest)) x.2
  · intro x _
    exact hn x.2

/-- The places of a walk differ. -/
theorem nodup_stepsOf {ts : List Token} (hunion : ts.any Token.isUnion = false)
    (hroot : ts.tail.any Token.isRoot = false) (hdescent : ts.countP Token.isDescent ≤ 1) (v : Value) :
    (stepsOf σ ts v).Nodup := by
  apply pairwise_stepsOf cons_ne_cons_of_lt cons_ne_cons_of_ne hunion hroot
  intro key key_ne rest hrest w
  have htail : rest <:+ ts.tail := suffix_tail_of_cons hrest
  have hcount : rest.countP Token.isDescent = 0 := by
    have hle := Nat.le_trans hrest.countP_le hdescent
    rw [List.countP_cons_of_pos rfl] at hle
    omega
  apply nodup_stepsOf_descend (any_eq_false_of_suffix (htail.trans (List.tail_suffix ts)) hunion)
    (any_eq_false_of_suffix htail hroot)
  exact List.any_eq_false.2 (List.countP_eq_zero.1 hcount)

/-- **No node is selected twice, and nodes are selected in document order.** On a path without unions, which leads to
the root at most at its start and has at most one descent, the present entries of a walk are values at places that
differ pairwise; without a descent, each place comes before the next in the lexicographic order of positions. -/
theorem findings_distinct (σ : Scope) (ts : List Token) (v : Value) (hunion : ts.any Token.isUnion = false)
    (hroot : ts.tail.any Token.isRoot = false) (hdescent : ts.countP Token.isDescent ≤ 1) :
    (run σ ts v).present = (findings σ ts v).map (fun x => .found x.2) ∧
    (∀ x ∈ findings σ ts v, (origin σ ts v).nodeAt? x.1.steps = some x.2) ∧
    (stepsOf σ ts v).Nodup ∧
    (ts.any Token.isDescent = false → (stepsOf σ ts v).Pairwise (List.Lex (· < ·))) := by
  refine ⟨present_eq_findings (Or.inr hunion) v, ?_, nodup_stepsOf hunion hroot hdescent v, fun hnone => ?_⟩
  · intro x hx
    have hnode := node?_of_mem_findings x hx
    rwa [Place.node?, fromRoot_eq_of_mem_findings hroot x hx] at hnode
  · apply pairwise_stepsOf (fun is js h => .rel h) (fun i is js h => .cons h) hunion hroot
    intro key key_ne rest hrest
    exact absurd rfl (List.any_eq_false.1 hnone _ (hrest.mem List.mem_cons_self))

/-- A descent finds one node above another; a negative index and a wildcard find the members of an object in order. -/
theorem findings_distinct_descent :
    let key : Text := chars ['a']
    let inner : Value := .object [(key, .null)]
    let v : Value := .list [.object [(chars ['b'], .bool true), (key, inner)], .null]
    ∃ key_ne : key ≠ [],
      (stepsOf ⟨.flat, .null, v⟩ [.descend key key_ne] v) = [[0, 1], [0, 1, 0]] ∧
      (stepsOf ⟨.flat, .null, v⟩ [.descend key key_ne] v).Nodup ∧
      (stepsOf ⟨.flat, .null, v⟩ [.child (.index (-2)), .wildcard] v) = [[0, 0], [0, 1]] ∧
      (stepsOf ⟨.flat, .null, v⟩ [.child (.index (-2)), .wildcard] v).Pairwise (List.Lex (· < ·)) := by
  intro key inner v
  have key_ne : key ≠ [] := List.cons_ne_nil _ _
  obtain ⟨_, _, hnodup, _⟩ := findings_distinct ⟨.flat, .null, v⟩ [.descend key key_ne] v rfl rfl (Nat.le_refl 1)
  obtain ⟨_, _, _, hlex⟩ :=
    findings_distinct ⟨.flat, .null, v⟩ [.child (.index (-2)), .wildcard] v rfl rfl (Nat.zero_le 1)
  exact ⟨key_ne, rfl, hnodup, rfl, hlex rfl⟩

end TreePath
