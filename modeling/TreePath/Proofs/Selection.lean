import TreePath.Proofs.Exploding
import TreePath.Proofs.DocumentOrder

/-!
# What filters select

Which children a filter selects depends on how many matches its path has at a child (`mem_picks_filter`): without a
match the child is not selected, one match is compared with the literal, and several are a list, which differs from
every literal and is in no order with it. So `==` and `!=` share out the children at which the path has a match
(`merge_picks_eq_ne`).
-/

namespace TreePath

/-! ## Tests by the number of matches -/

theorem Outcome.satisfies_eq_match (o : Outcome) (hole : Value) (op : Operator) (literal : Literal) :
    o.satisfies hole op literal =
      ((condense (o.present.map (Match.render hole))).elim false fun v => Value.satisfies op v literal.toValue) := by
  unfold satisfies present
  rw [filterMap_present_eq_map]
  cases condense ((o.entries.filter Match.isPresent).map (Match.render hole)) <;> rfl

/-- Without a match no comparison is satisfied. -/
theorem Outcome.satisfies_of_none {o : Outcome} (h : o.present = []) (hole : Value) (op : Operator)
    (literal : Literal) : o.satisfies hole op literal = false := by
  rw [satisfies_eq_match, h]
  rfl

/-- One value is compared with the literal. -/
theorem Outcome.satisfies_of_one {o : Outcome} {v : Value} (h : o.present = [.found v]) (hole : Value) (op : Operator)
    (literal : Literal) : o.satisfies hole op literal = Value.satisfies op v literal.toValue := by
  rw [satisfies_eq_match, h]
  rfl

/-- Several matches satisfy `!=` only. -/
theorem Outcome.satisfies_of_several {o : Outcome} (h : 2 ≤ o.present.length) (hole : Value) (op : Operator)
    (literal : Literal) : o.satisfies hole op literal = true ↔ op = .ne := by
  rw [satisfies_eq_match]
  match hp : o.present, h with
  | m :: n :: ms, _ => exact satisfies_list op _ literal

/-- Where there is a match, `!=` is satisfied if `==` is not. -/
theorem Outcome.satisfies_ne (o : Outcome) (hole : Value) (literal : Literal) :
    o.satisfies hole .ne literal = (!o.present.isEmpty && !o.satisfies hole .eq literal) := by
  rw [satisfies_eq_match, satisfies_eq_match]
  match o.present with
  | [] => rfl
  | [_] => rfl
  | _ :: _ :: _ => rfl

theorem Outcome.isEmpty_of_satisfies {o : Outcome} {hole : Value} {op : Operator} {literal : Literal}
    (h : o.satisfies hole op literal = true) : o.present.isEmpty = false := by
  cases hp : o.present with
  | nil => rw [satisfies_of_none hp] at h; cases h
  | cons m ms => rfl

/-! ## Parts of a list put together again -/

section Merging

variable {α : Type} {le : α → α → Bool}

theorem merge_cons_left {x : α} {xs ys : List α} (h : ∀ y ∈ ys, le x y = true) :
    List.merge (x :: xs) ys le = x :: List.merge xs ys le := by
  cases ys with
  | nil => rw [List.merge_right, List.merge_right]
  | cons y ys => exact List.cons_merge_cons_pos le xs ys (h y List.mem_cons_self)

theorem merge_cons_right {y : α} {xs ys : List α} (h : ∀ x ∈ xs, le x y = false) :
    List.merge xs (y :: ys) le = y :: List.merge xs ys le := by
  cases xs with
  | nil => rw [List.nil_merge, List.nil_merge]
  | cons x xs => exact List.cons_merge_cons_neg le xs ys (Bool.eq_false_iff.1 (h x List.mem_cons_self))

/-- Two parts of an ordered list without a common element, merged, are the elements of both parts in their order. -/
theorem merge_filter_filter {p q : α → Bool} {xs : List α}
    (hle : xs.Pairwise fun x y => le x y = true ∧ le y x = false) (hpq : ∀ x ∈ xs, p x = true → q x = false) :
    List.merge (xs.filter p) (xs.filter q) le = xs.filter fun x => p x || q x := by
  induction xs with
  | nil => exact List.nil_merge []
  | cons x xs ih =>
    obtain ⟨hx, hxs⟩ := List.pairwise_cons.1 hle
    have ih := ih hxs fun y hy => hpq y (List.mem_cons_of_mem _ hy)
    have hbefore : ∀ y ∈ xs.filter q, le x y = true := fun y hy => (hx y (List.mem_filter.1 hy).1).1
    have hafter : ∀ y ∈ xs.filter p, le y x = false := fun y hy => (hx y (List.mem_filter.1 hy).1).2
    cases hp : p x with
    | true =>
      have hq : q x = false := hpq x List.mem_cons_self hp
      rw [List.filter_cons_of_pos hp, List.filter_cons_of_neg (Bool.eq_false_iff.1 hq), merge_cons_left hbefore, ih,
        List.filter_cons_of_pos (by rw [hp, Bool.true_or])]
    | false =>
      rw [List.filter_cons_of_neg (Bool.eq_false_iff.1 hp)]
      cases hq : q x with
      | true =>
        rw [List.filter_cons_of_pos hq, merge_cons_right hafter, ih,
          List.filter_cons_of_pos (by rw [hq, Bool.or_true])]
      | false =>
        rw [List.filter_cons_of_neg (Bool.eq_false_iff.1 hq), ih,
          List.filter_cons_of_neg (by rw [hp, hq]; exact Bool.false_ne_true)]

end Merging

/-! ## Selected children -/

section Selected

variable (σ : Scope) (source : Option Text) (head : Token) (tail : List Token) (literal : Literal) (v : Value)

/-- The walk of a filter goes on at the children that it selects, and at no others. -/
theorem entries_run_picks (k : Value → Outcome) (op : Operator) (hv : v.isCollection = true) :
    (Selector.run σ k (.filter source head tail op literal) v).entries =
      ((Selector.filter source head tail op literal).picks σ v).flatMap fun x => (k x.1).entries := by
  rw [entries_run_filter σ k source head tail op literal hv, kept, ← Value.map_fst_numbered, List.filter_map,
    List.flatMap_map]
  rfl

/-- The children that `==` and `!=` select are different ones, and put together in their order they are the children
at which the path of the filter has a match. -/
theorem merge_picks_eq_ne :
    List.Disjoint ((Selector.filter source head tail .eq literal).picks σ v)
        ((Selector.filter source head tail .ne literal).picks σ v) ∧
      List.merge ((Selector.filter source head tail .eq literal).picks σ v)
          ((Selector.filter source head tail .ne literal).picks σ v) (fun x y => decide (x.2 ≤ y.2)) =
        v.numbered.filter fun x => !(run σ (head :: tail) x.1).present.isEmpty := by
  have hnot : ∀ x : Value × Nat, (run σ (head :: tail) x.1).satisfies σ.missing .eq literal = true →
      (run σ (head :: tail) x.1).satisfies σ.missing .ne literal = false := by
    intro x hx
    rw [Outcome.satisfies_ne, hx, Bool.not_true, Bool.and_false]
  constructor
  · rw [List.disjoint_left]
    intro x heq hne
    have h := (List.mem_filter.1 hne).2
    rw [hnot x (List.mem_filter.1 heq).2] at h
    cases h
  · have horder : v.numbered.Pairwise fun x y => decide (x.2 ≤ y.2) = true ∧ decide (y.2 ≤ x.2) = false := by
      apply v.pairwise_numbered.imp
      intro x y hlt
      simp only [decide_eq_true_eq, decide_eq_false_iff_not]
      omega
    rw [Selector.picks, Selector.picks, merge_filter_filter horder fun x _ => hnot x]
    apply List.filter_congr
    intro x _
    rw [Outcome.satisfies_ne]
    cases heq : (run σ (head :: tail) x.1).satisfies σ.missing .eq literal with
    | true => rw [Outcome.isEmpty_of_satisfies heq]; rfl
    | false => simp

theorem mem_picks_iff_satisfies (op : Operator) {x : Value × Nat} (hx : x ∈ v.numbered) :
    x ∈ (Selector.filter source head tail op literal).picks σ v ↔
      (run σ (head :: tail) x.1).satisfies σ.missing op literal = true :=
  List.mem_filter.trans (and_iff_right hx)

end Selected

/-- In flat mode one match that is present is a value. -/
theorem exists_found_of_present {σ : Scope} (hσ : σ.mode = .flat) {ts : List Token} {v : Value}
    (h : (run σ ts v).present.length = 1) : ∃ w, (run σ ts v).present = [.found w] := by
  obtain ⟨m, hm⟩ := List.length_eq_one_iff.1 h
  have hmem : m ∈ (run σ ts v).present := hm ▸ List.mem_singleton_self m
  obtain ⟨hentry, hpresent⟩ := List.mem_filter.1 hmem
  rcases absent_or_found hσ ts v m hentry with rfl | ⟨w, rfl⟩
  · cases hpresent
  · exact ⟨w, hm⟩

/-- **A filter selects by the number of matches.** In flat mode, a child at which the path of the filter has no match is
not selected; one at which it has one match, null or not, is selected if that value satisfies the comparison; and one
at which it has several is selected by `!=` only. The walk goes on at the selected children. Those that `==` selects
and those that `!=` selects differ, and together, in their order, they are the children with a match. -/
theorem mem_picks_filter (σ : Scope) (hσ : σ.mode = .flat) (source : Option Text) (head : Token) (tail : List Token)
    (literal : Literal) (v : Value) :
    let selected (op : Operator) := (Selector.filter source head tail op literal).picks σ v
    (∀ (op : Operator), ∀ x ∈ v.numbered,
      ((run σ (head :: tail) x.1).present = [] → x ∉ selected op) ∧
      ((run σ (head :: tail) x.1).present.length = 1 → ∃ w, (run σ (head :: tail) x.1).present = [.found w] ∧
        (x ∈ selected op ↔ Value.satisfies op w literal.toValue = true)) ∧
      (2 ≤ (run σ (head :: tail) x.1).present.length → (x ∈ selected op ↔ op = .ne))) ∧
    (∀ (op : Operator) (rest : List Token), v.isCollection = true →
      (run σ (.select (.filter source head tail op literal) :: rest) v).entries =
        (selected op).flatMap fun x => (run σ rest x.1).entries) ∧
    List.Disjoint (selected .eq) (selected .ne) ∧
    List.merge (selected .eq) (selected .ne) (fun x y => decide (x.2 ≤ y.2)) =
      v.numbered.filter fun x => !(run σ (head :: tail) x.1).present.isEmpty := by
  intro selected
  refine ⟨fun op x hx => ?_, fun op rest hv => ?_, merge_picks_eq_ne σ source head tail literal v⟩
  · have hselected := mem_picks_iff_satisfies σ source head tail literal v op hx
    refine ⟨fun hnone hmem => ?_, fun hone => ?_, fun hseveral => ?_⟩
    · have h := hselected.1 hmem
      rw [Outcome.satisfies_of_none hnone] at h
      cases h
    · obtain ⟨w, hw⟩ := exists_found_of_present hσ hone
      refine ⟨w, hw, ?_⟩
      rw [Outcome.satisfies_of_one hw] at hselected
      exact hselected
    · exact hselected.trans (Outcome.satisfies_of_several hseveral σ.missing op literal)
  · exact entries_run_picks σ source head tail literal v (run σ rest) op hv

/-- Objects with no member, with one that is null and with two: the second one is equal to null, the third one is not,
and the first one is neither. -/
theorem mem_picks_filter_null :
    let σ : Scope := ⟨.flat, .null, .null⟩
    let two : Value := .object [("a", .null), ("b", .null)]
    let v : Value := .list [.object [], .object [("a", .null)], two]
    let selected (op : Operator) := (Selector.filter none .current [.wildcard] op .null).picks σ v
    (.object [], 0) ∉ selected .eq ∧ (.object [], 0) ∉ selected .ne ∧
      (.object [("a", .null)], 1) ∈ selected .eq ∧ (two, 2) ∈ selected .ne ∧
      List.Disjoint (selected .eq) (selected .ne) := by
  intro σ two v selected
  obtain ⟨hcount, _, hdisjoint, _⟩ := mem_picks_filter σ rfl none .current [.wildcard] .null v
  have hfirst : (.object [], 0) ∈ v.numbered := List.mem_cons_self
  have hsecond : (.object [("a", .null)], 1) ∈ v.numbered := List.mem_cons_of_mem _ List.mem_cons_self
  have hthird : (two, 2) ∈ v.numbered := List.mem_cons_of_mem _ (List.mem_cons_of_mem _ List.mem_cons_self)
  obtain ⟨w, hw, hequal⟩ := (hcount .eq _ hsecond).2.1 rfl
  cases hw
  exact ⟨(hcount .eq _ hfirst).1 rfl, (hcount .ne _ hfirst).1 rfl, hequal.2 rfl,
    ((hcount .ne _ hthird).2.2 (Nat.le_refl 2)).2 rfl, hdisjoint⟩

end TreePath
