import TreePath.Proofs.Concatenation
import TreePath.Proofs.Slots
import TreePath.Query.Report

/-!
# What filters keep

A filter goes on at the children that it keeps (`entries_run_filter`): those for which the matches of its path, taken
together, satisfy its comparison. Where its path finds no value in flat mode, a child is not kept in flat mode, whatever
the comparison.

In nested mode such a child is kept in two cases (`mem_kept_of_absent`). A union leaves a list, be it one of absences
only, and a list is a value that differs from every literal: so `!=` keeps the child. And a filter inside the path whose
own path has a union sees these lists too; it may keep values that it does not keep in flat mode, and then the child is
kept by every comparison that they satisfy.
-/

namespace TreePath

/-- The children that a filter over the path `subpath` keeps. -/
def kept (σ : Scope) (subpath : List Token) (op : Operator) (literal : Literal) (v : Value) : List Value :=
  v.children.filter fun w => (run σ subpath w).satisfies σ.missing op literal

/-- The walk of a filter goes on at the children it keeps, and at no others. -/
theorem entries_run_filter (σ : Scope) (k : Value → Outcome) (source : Option Text) (head : Token) (tail : List Token)
    (op : Operator) (literal : Literal) {v : Value} (hv : v.isCollection = true) :
    (Selector.run σ k (.filter source head tail op literal) v).entries =
      (kept σ (head :: tail) op literal v).flatMap fun w => (k w).entries := by
  obtain ⟨ws, hws⟩ := Option.isSome_iff_exists.1 hv
  rw [run_filter, kept, Value.children_eq hws, hws]
  dsimp only
  rw [Outcome.entries_join]
  clear hws hv
  induction ws with
  | nil => rfl
  | cons w ws ih =>
    rw [List.map_cons, List.flatMap_cons, ih, List.filter_cons, Outcome.entries_append, Outcome.entries_aside,
      List.nil_append]
    split
    · rw [List.flatMap_cons]
    · rfl

/-! ## Comparing a list with a literal -/

theorem satisfies_list (op : Operator) (vs : List Value) (literal : Literal) :
    Value.satisfies op (.list vs) literal.toValue = true ↔ op = .ne := by
  cases op <;> cases literal <;> simp [Value.satisfies, Literal.toValue, Value.int, Value.equal, Value.order?]

/-- A list, alone or taken together with others, is a list. -/
theorem condense_of_mem_list {vs xs : List Value} (h : .list xs ∈ vs) : ∃ ys, condense vs = some (.list ys) := by
  rcases vs with _ | ⟨v, _ | ⟨w, ws⟩⟩
  · cases h
  · obtain rfl := List.mem_singleton.1 h
    exact ⟨xs, rfl⟩
  · exact ⟨v :: w :: ws, rfl⟩

theorem exists_mem_of_condense {vs : List Value} {u : Value} (h : condense vs = some u) : ∃ v, v ∈ vs := by
  cases vs with
  | nil => cases h
  | cons v vs => exact ⟨v, List.mem_cons_self⟩

/-! ## Tests with and without slots -/

/-- A slot among the matches makes a list of them, which satisfies only `!=`. -/
theorem satisfies_of_slot {o : Outcome} {ms : List Match} (h : .slot ms ∈ o.entries) (hole : Value) (op : Operator)
    (literal : Literal) : o.satisfies hole op literal = true ↔ op = .ne := by
  have hmem : .list (Match.renderAll hole ms) ∈ o.entries.filterMap (Match.present? hole) :=
    List.mem_filterMap.2 ⟨_, h, rfl⟩
  obtain ⟨xs, hxs⟩ := condense_of_mem_list hmem
  unfold Outcome.satisfies
  rw [hxs]
  exact satisfies_list op xs literal

/-- Without slots the matches are compared as the values among them are. -/
theorem satisfies_of_no_slot {o : Outcome} (h : ∀ ms, .slot ms ∉ o.entries) (hole : Value) (op : Operator)
    (literal : Literal) :
    o.satisfies hole op literal = true ↔
      ∃ u, condense o.values = some u ∧ Value.satisfies op u literal.toValue = true := by
  have hvalues : o.entries.filterMap (Match.present? hole) = o.values := by
    apply List.filterMap_congr
    intro m hm
    cases m with
    | found v => rfl
    | absent => rfl
    | slot ms => exact absurd hm (h ms)
  unfold Outcome.satisfies
  rw [hvalues]
  cases condense o.values <;> simp

/-! ## Where flat mode finds no value -/

theorem mem_leavesAll {m n : Match} {ms : List Match} (hm : m ∈ ms) (hn : n ∈ m.leaves) : n ∈ leavesAll ms := by
  induction ms with
  | nil => cases hm
  | cons m' ms ih =>
    rw [leavesAll]
    rcases List.mem_cons.1 hm with rfl | hm
    · exact List.mem_append_left _ hn
    · exact List.mem_append_right _ (ih hm)

section Absent

variable {σ : Scope} {subpath : List Token} {e : Value}
  (habsent : ∀ m ∈ (run { σ with mode := .flat } subpath e).entries, m = .absent)

include habsent

/-- Only in nested mode there is then something else than absences. -/
theorem nested_of_mem_entries {m : Match} (hm : m ∈ (run σ subpath e).entries) (hne : m ≠ .absent) :
    σ.mode = .nested := by
  obtain ⟨mode, hole, root⟩ := σ
  cases mode with
  | flat => exact absurd (habsent m hm) hne
  | nested => rfl

/-- A value that is found nevertheless has passed a filter that tests a union: otherwise it would be an entry of the
flat walk, too. -/
theorem testsUnion_of_mem_entries {w : Value} (hw : .found w ∈ (run σ subpath e).entries) :
    subpath.any Token.testsUnion = true := by
  have hmode := nested_of_mem_entries habsent hw Match.noConfusion
  obtain ⟨mode, hole, root⟩ := σ
  obtain rfl : mode = .nested := hmode
  by_contra htests
  have hleaves := (run_groupedFrom (σ := ⟨.nested, hole, root⟩) (Bool.eq_false_iff.2 htests) e).1
  have hleaf := mem_leavesAll hw (List.mem_singleton.2 rfl)
  rw [hleaves] at hleaf
  cases habsent _ hleaf

end Absent

/-- **What is absent satisfies no comparison, unless unions make lists of it.** If the path of a filter finds no value
from a child in flat mode, flat mode does not keep the child. Nested mode keeps it by `!=` if there is a slot among the
matches; without a slot, only if a filter inside the path tests a union, and by the comparisons that hold of the values
which the path then finds. -/
theorem mem_kept_of_absent (σ : Scope) (subpath : List Token) (op : Operator) (literal : Literal) (v e : Value)
    (he : e ∈ v.children) (habsent : ∀ m ∈ (run { σ with mode := .flat } subpath e).entries, m = .absent) :
    e ∈ kept σ subpath op literal v ↔
      σ.mode = .nested ∧
        ((op = .ne ∧ ∃ ms, .slot ms ∈ (run σ subpath e).entries) ∨
          (subpath.any Token.testsUnion = true ∧ (∀ ms, .slot ms ∉ (run σ subpath e).entries) ∧
            ∃ u, condense (run σ subpath e).values = some u ∧ Value.satisfies op u literal.toValue = true)) := by
  rw [kept, List.mem_filter, and_iff_right he]
  by_cases hslot : ∃ ms, .slot ms ∈ (run σ subpath e).entries
  · obtain ⟨ms, hms⟩ := hslot
    have hmode := nested_of_mem_entries habsent hms Match.noConfusion
    rw [satisfies_of_slot hms]
    constructor
    · intro hop
      exact ⟨hmode, Or.inl ⟨hop, ms, hms⟩⟩
    · rintro ⟨_, ⟨hop, _⟩ | ⟨_, hno, _⟩⟩
      · exact hop
      · exact absurd hms (hno ms)
  · have hno : ∀ ms, .slot ms ∉ (run σ subpath e).entries := fun ms hms => hslot ⟨ms, hms⟩
    rw [satisfies_of_no_slot hno]
    constructor
    · rintro ⟨u, hu, hsat⟩
      obtain ⟨w, hw⟩ := exists_mem_of_condense hu
      have hfound := Outcome.mem_values.1 hw
      exact ⟨nested_of_mem_entries habsent hfound Match.noConfusion,
        Or.inr ⟨testsUnion_of_mem_entries habsent hfound, hno, u, hu, hsat⟩⟩
    · rintro ⟨_, ⟨_, hms⟩ | ⟨_, _, hsat⟩⟩
      · exact absurd hms hslot
      · exact hsat

/-- Flat unions of two members that are not there find nothing, and the object is not kept; the nested ones do not
find anything either, but they leave two lists, and the object is kept. As a test inside a path, the same union keeps
an object whose member is then found, and compared as it is. -/
theorem mem_kept_of_absent_union :
    let union : List Token := [.current, .union (.child (.name "a")) [.child (.name "b")], .wildcard]
    let v : Value := .list [.object []]
    let path : List Token :=
      [.current, .select (.filter none .current union.tail .ne (.int 1)), .select (.child (.name "c"))]
    let e : Value := .list [.object [("c", .bool true)]]
    (∀ m ∈ (run ⟨.flat, .null, v⟩ union (.object [])).entries, m = .absent) ∧
      .object [] ∉ kept ⟨.flat, .null, v⟩ union .ne (.int 1) v ∧
      .object [] ∈ kept ⟨.nested, .null, v⟩ union .ne (.int 1) v ∧
      (∀ m ∈ (run ⟨.flat, .null, .list [e]⟩ path e).entries, m = .absent) ∧
      e ∉ kept ⟨.flat, .null, .list [e]⟩ path .eq (.bool true) (.list [e]) ∧
      e ∈ kept ⟨.nested, .null, .list [e]⟩ path .eq (.bool true) (.list [e]) := by
  intro union v path e
  have hunion : ∀ m ∈ (run ⟨.flat, .null, v⟩ union (.object [])).entries, m = .absent := by
    show ∀ m ∈ [Match.absent, Match.absent], m = .absent
    simp
  have hpath : ∀ m ∈ (run ⟨.flat, .null, .list [e]⟩ path e).entries, m = .absent := by
    show ∀ m ∈ ([] : List Match), m = .absent
    simp
  refine ⟨hunion, ?_, ?_, hpath, ?_, ?_⟩
  · rw [mem_kept_of_absent ⟨.flat, .null, v⟩ union .ne (.int 1) v _ List.mem_cons_self hunion]
    rintro ⟨hmode, _⟩
    cases hmode
  · rw [mem_kept_of_absent ⟨.nested, .null, v⟩ union .ne (.int 1) v _ List.mem_cons_self hunion]
    exact ⟨rfl, Or.inl ⟨rfl, [.absent], List.mem_cons_self⟩⟩
  · rw [mem_kept_of_absent ⟨.flat, .null, .list [e]⟩ path .eq (.bool true) _ _ List.mem_cons_self hpath]
    rintro ⟨hmode, _⟩
    cases hmode
  · rw [mem_kept_of_absent ⟨.nested, .null, .list [e]⟩ path .eq (.bool true) _ _ List.mem_cons_self hpath]
    have hentries : (run ⟨.nested, .null, .list [e]⟩ path e).entries = [.found (.bool true)] := rfl
    refine ⟨rfl, Or.inr ⟨rfl, fun ms hms => ?_, .bool true, rfl, rfl⟩⟩
    rw [hentries] at hms
    cases List.mem_singleton.1 hms

/-- In nested mode an object without members is kept by a filter whose path finds no value from it. -/
theorem results_absent_not_equal :
    let subpath : List Token := [.current, .union (.child (.name "a")) [.child (.name "b")], .wildcard]
    let document : Value := .list [.object []]
    let path : Path := ⟨[.root, .select (.filter none .current subpath.tail .ne (.int 1))], none⟩
    (run ⟨.flat, .null, document⟩ subpath (.object [])).entries = [.absent, .absent] ∧
      (Config.evaluate ⟨.flat, .null, false⟩ document none path).results = [] ∧
      (Config.evaluate ⟨.nested, .null, false⟩ document none path).results = [.object []] :=
  ⟨rfl, rfl, rfl⟩

end TreePath
