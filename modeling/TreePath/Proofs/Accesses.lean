import TreePath.Proofs.DistinctKeys
import TreePath.Proofs.DocumentOrder

/-!
# Fetching matches again

Whatever a walk finds can be fetched by plain access: for each finding there is a path of keys, behind `$` or `@`, that
finds this node and nothing else (`findings_fetched`). The keys are those of the children on the way to the place of the
finding (`exists_keys`); each leads to its child since the keys of objects are distinct, and it does not lose the way
since no child is the marker `missing`.
-/

namespace TreePath

/-- The path of the children under some keys, from the root of the document or from the item. -/
def accesses (fromRoot : Bool) (keys : List Key) : List Token :=
  (if fromRoot then .root else .current) :: keys.map Token.child

theorem all_isStep_accesses (fromRoot : Bool) (keys : List Key) : (accesses fromRoot keys).all Token.isStep = true := by
  have hkeys : (keys.map Token.child).all Token.isStep = true := by
    rw [List.all_map]
    exact List.all_eq_true.2 fun _ _ => rfl
  rw [accesses, List.all_cons, hkeys]
  cases fromRoot <;> rfl

/-! ## Positions spelled as keys -/

/-- The node at some positions is inside the value. -/
theorem Value.inside_of_nodeAt? {u : Value} : ∀ {is : List Nat} {v : Value}, v.nodeAt? is = some u → Inside u v
  | [], _, h => by
    cases h
    exact .here u
  | i :: is, _, h => by
    obtain ⟨w, hw, hu⟩ := Option.bind_eq_some_iff.1 h
    exact .deeper (List.mem_of_getElem? hw) (inside_of_nodeAt? hu)

theorem Value.hasMissing_eq_false_of_mem_children {v w : Value} (h : v.hasMissing = false) (hw : w ∈ v.children) :
    w.hasMissing = false := (Inside.of_child hw).hasMissing_eq_false h

variable {σ : Scope}

/-- What a path finds behind a key that leads to a child. -/
theorem findings_child {v w : Value} {key : Key} {i : Nat} (hkey : v.numberedChild? key = some (w, i))
    (hw : w.isMissing = false) (ts : List Token) :
    findings σ (.child key :: ts) v = (findings σ ts w).map fun y => ((⟨false, [i]⟩ : Place).behind y.1, y.2) := by
  have hspots : (Token.child key).spots σ v = [(⟨false, [i]⟩, w)] := by
    rw [Token.child, Token.spots, Selector.picks, hkey, Option.filter_some, hw]
    rfl
  rw [findings, hspots, List.flatMap_singleton]

/-- The positions of a node can be spelled as keys, which lead to this node and nowhere else. -/
theorem exists_keys {u : Value} : ∀ {is : List Nat} {v : Value}, v.keysDistinct = true → v.hasMissing = false →
    v.nodeAt? is = some u →
      ∃ keys : List Key, (∀ i, .index i ∈ keys → 0 ≤ i) ∧ findings σ (keys.map Token.child) v = [(⟨false, is⟩, u)]
  | [], v, _, hmissing, h => by
    cases h
    refine ⟨[], fun i hi => (List.not_mem_nil hi).elim, ?_⟩
    rw [List.map_nil, findings, Value.isMissing_eq_false hmissing, if_neg Bool.false_ne_true]
  | i :: is, v, hdistinct, hmissing, h => by
    obtain ⟨w, hw, hu⟩ := Option.bind_eq_some_iff.1 h
    have hchild : w ∈ v.children := List.mem_of_getElem? hw
    have hwmissing := Value.hasMissing_eq_false_of_mem_children hmissing hchild
    obtain ⟨key, hkeynonneg, hkey⟩ := Value.exists_key (Value.keysDistinct_iff.1 hdistinct).1 hw
    obtain ⟨keys, hnonneg, hkeys⟩ := exists_keys (Value.keysDistinct_of_mem_children hdistinct hchild) hwmissing hu
    refine ⟨key :: keys, ?_, ?_⟩
    · intro j hj
      rcases List.mem_cons.1 hj with rfl | hj
      · exact hkeynonneg j rfl
      · exact hnonneg j hj
    · rw [List.map_cons, findings_child hkey (Value.isMissing_eq_false hwmissing), hkeys]
      rfl

/-! ## Findings and entries of accesses -/

/-- A path of accesses finds what its keys find from the root or from the item. -/
theorem findings_accesses {keys : List Key} {fromRoot : Bool} {is : List Nat} {u v : Value}
    (h : findings σ (keys.map Token.child) (if fromRoot then σ.root else v) = [(⟨false, is⟩, u)]) :
    findings σ (accesses fromRoot keys) v = [(⟨fromRoot, is⟩, u)] := by
  cases fromRoot with
  | true =>
    rw [if_pos rfl] at h
    show ([(⟨true, []⟩, σ.root)] : List (Place × Value)).flatMap _ = _
    rw [List.flatMap_singleton, h]
    rfl
  | false =>
    rw [if_neg Bool.false_ne_true] at h
    show ([(⟨false, []⟩, v)] : List (Place × Value)).flatMap _ = _
    rw [List.flatMap_singleton, h]
    rfl

/-- A path of steps that finds one value has it as its only entry. -/
theorem entries_of_findings {ts : List Token} (hmode : σ.mode = .flat) (hsteps : ts.all Token.isStep = true)
    {v u : Value} {p : Place} (h : findings σ ts v = [(p, u)]) : (run σ ts v).entries = [.found u] := by
  have hpresent : (run σ ts v).entries.filter Match.isPresent = [.found u] := by
    have hfound : (run σ ts v).present = (findings σ ts v).map fun x => .found x.2 :=
      present_eq_findings (Or.inl hmode) v
    rwa [h] at hfound
  obtain ⟨m, hm⟩ := List.length_eq_one_iff.1 (length_entries_of_steps σ hsteps v)
  rw [hm, List.filter_cons, List.filter_nil] at hpresent
  rw [hm]
  split at hpresent
  · exact hpresent
  · cases hpresent

/-- **Every match can be fetched again by plain access.** In flat mode, from a document and an item that do not hold the
marker `missing`, each present entry of a walk is a node of the document or of the item, and there are keys, indices
counted from the start, such that the path of these accesses finds the same node and nothing else, and its value is
the only entry. The accesses start at the item if no token of the path leads back to the root. -/
theorem findings_fetched (σ : Scope) (ts : List Token) (v : Value) (hmode : σ.mode = .flat)
    (hroot : σ.root.hasMissing = false) (hv : v.hasMissing = false) (hrootKeys : σ.root.keysDistinct = true)
    (hkeys : v.keysDistinct = true) :
    (run σ ts v).present = (findings σ ts v).map (fun x => .found x.2) ∧
    ∀ x ∈ findings σ ts v,
      Value.Inside x.2 (if x.1.fromRoot then σ.root else v) ∧
      (∃ keys : List Key, (∀ i, .index i ∈ keys → 0 ≤ i) ∧
        findings σ (accesses x.1.fromRoot keys) v = [x] ∧
        (run σ (accesses x.1.fromRoot keys) v).entries = [.found x.2]) ∧
      (ts.any Token.isRoot = false → x.1.fromRoot = false) := by
  refine ⟨present_eq_findings (Or.inl hmode) v, fun x hx => ?_⟩
  have hnode : (if x.1.fromRoot then σ.root else v).nodeAt? x.1.steps = some x.2 := node?_of_mem_findings x hx
  have hdistinct : (if x.1.fromRoot then σ.root else v).keysDistinct = true := by
    split
    · exact hrootKeys
    · exact hkeys
  have hmissing : (if x.1.fromRoot then σ.root else v).hasMissing = false := by
    split
    · exact hroot
    · exact hv
  obtain ⟨keys, hnonneg, hfound⟩ := exists_keys (σ := σ) hdistinct hmissing hnode
  have hfetched := findings_accesses hfound
  exact ⟨Value.inside_of_nodeAt? hnode,
    ⟨keys, hnonneg, hfetched, entries_of_findings hmode (all_isStep_accesses _ _) hfetched⟩,
    fun hlocal => fromRoot_of_mem_findings hlocal x hx⟩

/-- A union finds the last element of one member twice and that of the other once; another path leads to the root. -/
theorem findings_fetched_union :
    let σ : Scope := ⟨.flat, .null, .tuple [.null]⟩
    let last : Token := .select (.slice ⟨-1, none, 1, by decide⟩)
    let ts : List Token := [.union (.child (.name "a")) [.wildcard], last]
    let v : Value := .object [("a", .list [.null, .bool true]), ("b", .list [.bool false])]
    σ.root.hasMissing = false ∧ v.hasMissing = false ∧ σ.root.keysDistinct = true ∧ v.keysDistinct = true ∧
      (run σ ts v).present = [.found (.bool true), .found (.bool true), .found (.bool false)] ∧
      (∃ keys : List Key, (run σ (accesses false keys) v).entries = [.found (.bool false)]) ∧
      ∃ keys : List Key, (run σ (accesses true keys) v).entries = [.found .null] := by
  intro σ last ts v
  obtain ⟨hpresent, hfetched⟩ := findings_fetched σ ts v rfl rfl rfl rfl rfl
  obtain ⟨_, ⟨keys, _, _, hkeys⟩, _⟩ := hfetched (⟨false, [1, 0]⟩, .bool false) (.tail _ (.tail _ (.head _)))
  obtain ⟨_, hrooted⟩ := findings_fetched σ [.root, last] v rfl rfl rfl rfl rfl
  obtain ⟨_, ⟨rootKeys, _, _, hrootKeys⟩, _⟩ := hrooted (⟨true, [0]⟩, .null) (.head _)
  exact ⟨rfl, rfl, rfl, rfl, hpresent.trans rfl, ⟨keys, hkeys⟩, rootKeys, hrootKeys⟩

end TreePath
