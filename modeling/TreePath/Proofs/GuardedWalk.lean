import TreePath.Proofs.Guarded
import TreePath.Proofs.Slots

/-!
# Evaluation fails nowhere

No operation of an evaluation is called where it is not defined, and a comparison that is stopped is one that does not
hold: with operations that can fail an evaluation gives what it gives without (`evaluate_fails_nowhere`).

Each operation has its lemma (`child_eq`, `condense_eq`, `compare_text`, `slot_eq`, …). The walk is an induction on the
path: where the walk along the rest fails nowhere, a token does not fail either (`token_eq`). What the induction needs
beside that is the number of entries of a path of steps, which are read without a test.
-/

namespace TreePath.Guarded

/-! ## Operations on lists and objects -/

theorem hasKey_eq (ms : List (Text × Value)) (key : Text) : hasKey ms key = (ms.lookup key).isSome := by
  rw [Bool.eq_iff_iff, hasKey, List.any_eq_true, List.lookup_isSome_iff]

/-- A member that is there is found. -/
theorem memberAt_eq {ms : List (Text × Value)} {key : Text} {v : Value} (h : ms.lookup key = some v) :
    memberAt ms key = .ok v := by
  rw [memberAt, h]
  rfl

/-- An index in range is that of an element. -/
theorem elementAt_eq {xs : List Value} {i : Int} (h : -(xs.length : Int) ≤ i ∧ i < xs.length) :
    ∃ x, Value.elementAt? xs i = some x ∧ elementAt xs i = .ok x := by
  obtain ⟨hlow, hhigh⟩ := h
  unfold elementAt Value.elementAt?
  by_cases hi : i < 0
  · have hlt : (i + xs.length).toNat < xs.length := by omega
    refine ⟨xs[(i + xs.length).toNat], ?_, ?_⟩
    · rw [if_neg (by omega), if_pos hlow, List.getElem?_eq_getElem hlt]
    · simp only [if_pos hi]
      rw [if_neg (by omega), List.getElem?_eq_getElem hlt]
      rfl
  · have hlt : i.toNat < xs.length := by omega
    refine ⟨xs[i.toNat], ?_, ?_⟩
    · rw [if_pos (by omega), List.getElem?_eq_getElem hlt]
    · simp only [if_neg hi]
      rw [List.getElem?_eq_getElem hlt]
      rfl

theorem elementAt?_of_not_range {xs : List Value} {i : Int} (h : ¬ (-(xs.length : Int) ≤ i ∧ i < xs.length)) :
    Value.elementAt? xs i = none := by
  unfold Value.elementAt?
  by_cases hi : 0 ≤ i
  · rw [if_pos hi, List.getElem?_eq_none (by omega)]
  · rw [if_neg hi, if_neg (by omega)]

theorem child_eq (v : Value) (key : Key) : child v key = .ok ((v.child? key).getD .missing) := by
  have helement : ∀ (xs : List Value) (i : Int), (if -(xs.length : Int) ≤ i ∧ i < xs.length then elementAt xs i
      else .ok .missing) = .ok ((Value.elementAt? xs i).getD .missing) := by
    intro xs i
    by_cases h : -(xs.length : Int) ≤ i ∧ i < xs.length
    · obtain ⟨x, hx, hat⟩ := elementAt_eq h
      rw [if_pos h, hx, hat]
      rfl
    · rw [if_neg h, elementAt?_of_not_range h]
      rfl
  cases key with
  | index i =>
    cases v with
    | list xs => exact helement xs i
    | tuple xs => exact helement xs i
    | _ => rfl
  | name s =>
    cases v with
    | object ms =>
      rw [child, hasKey_eq, Value.child?, Value.member?]
      cases h : ms.lookup s with
      | some w => exact memberAt_eq h
      | none => rfl
    | _ => rfl

theorem condense_eq (vs : List Value) : condense vs = .ok (TreePath.condense vs) := by
  rcases vs with _ | ⟨v, _ | ⟨w, vs⟩⟩
  · rfl
  · rfl
  · rfl

/-! ## Equality -/

theorem equal_of_no_realPart {x y : Number} (h : x.realPart? = none ∨ y.realPart? = none) : x.equal y = false := by
  unfold Number.equal
  rcases h with h | h
  · rw [h]
    rfl
  · rw [h]
    cases x.realPart? <;> rfl

theorem realPart?_of_signals {x : Number} (h : signals x = true) : x.realPart? = none := by
  cases x with
  | decimal d =>
    cases d with
    | nan negative signaling payload => rfl
    | _ => cases h
  | _ => cases h

/-- Two numbers whose comparison is stopped are not equal. -/
theorem numberEqual_eq (x y : Number) : recover [.arithmetic] (numberEqual x y) = .ok (x.equal y) := by
  unfold numberEqual
  by_cases h : (signals x && isReal y || signals y && isReal x) = true
  · rw [if_pos h]
    simp only [Bool.or_eq_true, Bool.and_eq_true] at h
    have hequal : x.equal y = false :=
      equal_of_no_realPart (h.imp (fun h => realPart?_of_signals h.1) fun h => realPart?_of_signals h.1)
    rw [hequal]
    rfl
  · rw [if_neg h]
    rfl

theorem equalAll_of_length_ne : ∀ {xs ys : List Value}, xs.length ≠ ys.length → Value.equalAll xs ys = false
  | [], [], h => absurd rfl h
  | [], _ :: _, _ | _ :: _, [], _ => rfl
  | x :: xs, y :: ys, h => by
    rw [Value.equalAll, equalAll_of_length_ne fun he => h (congrArg (· + 1) he), Bool.and_false]

theorem if_length_eq {xs ys : List Value}
    (h : xs.length = ys.length → equalAll xs ys = .ok (Value.equalAll xs ys)) :
    (if xs.length = ys.length then equalAll xs ys else .ok false) = .ok (Value.equalAll xs ys) := by
  by_cases hlength : xs.length = ys.length
  · rw [if_pos hlength, h hlength]
  · rw [if_neg hlength, equalAll_of_length_ne hlength]

theorem equalMembers_of_not_hasKey {ns : List (Text × Value)} : ∀ {ms : List (Text × Value)},
    (ms.all fun m => hasKey ns m.1) = false → Value.equalMembers ms ns = false
  | [], h => by cases h
  | (key, v) :: ms, h => by
    rw [List.all_cons, Bool.and_eq_false_iff, hasKey_eq, Option.isSome_eq_false_iff, Option.isNone_iff_eq_none] at h
    rw [Value.equalMembers]
    rcases h with h | h
    · rw [h]
      rfl
    · rw [equalMembers_of_not_hasKey h, Bool.and_false]

mutual

/-- Equality is defined for every pair of values. -/
theorem equal_eq : ∀ a b : Value, equal a b = .ok (a.equal b)
  | .null, b => by cases b <;> rfl
  | .bool a, b => by cases b <;> rfl
  | .number x, b => by
    cases b with
    | number y => exact numberEqual_eq x y
    | _ => rfl
  | .string s, b => by cases b <;> rfl
  | .list xs, b => by
    cases b with
    | list ys => exact if_length_eq (equalAll_eq xs ys)
    | tuple ys => exact if_length_eq (equalAll_eq xs ys)
    | _ => rfl
  | .tuple xs, b => by
    cases b with
    | list ys => exact if_length_eq (equalAll_eq xs ys)
    | tuple ys => exact if_length_eq (equalAll_eq xs ys)
    | _ => rfl
  | .object ms, b => by
    cases b with
    | object ns =>
      rw [equal, Value.equal, sameKeys]
      cases hlength : ms.length == ns.length with
      | false => rfl
      | true =>
        rw [Bool.true_and, Bool.true_and]
        cases hkeys : ms.all fun m => hasKey ns m.1 with
        | true => exact equalMembers_eq ms ns hkeys
        | false =>
          rw [equalMembers_of_not_hasKey hkeys]
          rfl
    | _ => rfl
  | .foreign _, _ => rfl
  | .missing, _ => rfl
  | .openEnd, _ => rfl

theorem equalAll_eq : ∀ xs ys : List Value, xs.length = ys.length → equalAll xs ys = .ok (Value.equalAll xs ys)
  | [], [], _ => rfl
  | x :: xs, y :: ys, h => by
    rw [equalAll, Value.equalAll, equal_eq x y]
    cases x.equal y with
    | true => exact equalAll_eq xs ys (Nat.succ.inj h)
    | false => rfl

theorem equalMembers_eq : ∀ ms ns : List (Text × Value), (ms.all fun m => hasKey ns m.1) = true →
    equalMembers ms ns = .ok (Value.equalMembers ms ns)
  | [], ns, _ => rfl
  | (key, v) :: ms, ns, h => by
    rw [List.all_cons, Bool.and_eq_true_iff, hasKey_eq, Option.isSome_iff_exists] at h
    obtain ⟨⟨w, hw⟩, hms⟩ := h
    rw [equalMembers, Value.equalMembers, memberAt_eq hw, hw]
    show (equal v w >>= _) = _
    rw [equal_eq v w]
    cases hvw : v.equal w with
    | true =>
      dsimp only
      rw [hvw, Bool.true_and]
      exact equalMembers_eq ms ns hms
    | false =>
      dsimp only
      rw [hvw]
      rfl

end

/-! ## Order -/

theorem order?_of_no_line {x y : Number} (h : x.line? = none ∨ y.line? = none) : x.order? y = none := by
  unfold Number.order?
  rcases h with h | h
  · rw [h]
    rfl
  · rw [h]
    cases x.line? <;> rfl

theorem line?_of_isComplex {x : Number} (h : isComplex x = true) : x.line? = none := by
  cases x with
  | complex re im => rfl
  | _ => cases h

/-- Two numbers whose ordering is stopped have no order. -/
theorem numberOrder_eq (x y : Number) : numberOrder x y = .ok (x.order? y) ∨
    x.order? y = none ∧ ∃ t ∈ [Trap.unordered, Trap.arithmetic], numberOrder x y = .error t := by
  unfold numberOrder
  by_cases hcomplex : (isComplex x || isComplex y) = true
  · rw [if_pos hcomplex]
    rw [Bool.or_eq_true_iff] at hcomplex
    exact Or.inr ⟨order?_of_no_line (hcomplex.imp line?_of_isComplex line?_of_isComplex), .unordered, by simp, rfl⟩
  · rw [if_neg hcomplex]
    by_cases hnan : ((isDecimal x || isDecimal y) && (x.line?.isNone || y.line?.isNone)) = true
    · rw [if_pos hnan]
      simp only [Bool.and_eq_true_iff, Bool.or_eq_true_iff, Option.isNone_iff_eq_none] at hnan
      exact Or.inr ⟨order?_of_no_line hnan.2, .arithmetic, by simp, rfl⟩
    · rw [if_neg hnan]
      exact Or.inl rfl

theorem order_eq (left right : Value) : order left right = .ok (left.order? right) ∨
    left.order? right = none ∧ ∃ t ∈ [Trap.unordered, Trap.arithmetic], order left right = .error t := by
  cases left with
  | bool a =>
    cases right with
    | bool b => exact Or.inl rfl
    | _ => exact Or.inr ⟨rfl, .unordered, by simp, rfl⟩
  | number x =>
    cases right with
    | number y => exact numberOrder_eq x y
    | _ => exact Or.inr ⟨rfl, .unordered, by simp, rfl⟩
  | string s =>
    cases right with
    | string t => exact Or.inl rfl
    | _ => exact Or.inr ⟨rfl, .unordered, by simp, rfl⟩
  | _ => exact Or.inr ⟨rfl, .unordered, by simp, rfl⟩

/-- Values that are not of one ordered kind have no order. -/
theorem order?_of_kinds {left right : Value}
    (h : (left.kind?.any isOrdered && left.kind? == right.kind?) = false) : left.order? right = none := by
  cases left with
  | bool a =>
    cases right with
    | bool b => cases h
    | _ => rfl
  | number x =>
    cases right with
    | number y => cases h
    | _ => rfl
  | string s =>
    cases right with
    | string t => cases h
    | _ => rfl
  | _ => rfl

theorem ordered_eq {wanted : Option Ordering → Bool} (h : wanted none = false) (left right : Value) :
    ordered wanted left right = .ok (wanted (left.order? right)) := by
  unfold ordered
  cases hkinds : left.kind?.any isOrdered && left.kind? == right.kind? with
  | false => rw [if_neg Bool.false_ne_true, order?_of_kinds hkinds, h]
  | true =>
    rw [if_pos rfl]
    rcases order_eq left right with ho | ⟨hnone, t, ht, ho⟩
    · rw [ho]
      rfl
    · rw [ho, hnone, h]
      exact if_pos ht

theorem ofText?_text (op : Operator) : Operator.ofText? op.text = some op := by
  cases op <;> decide

/-- **Comparing fails for no pair of values.** -/
theorem compare_text (op : Operator) (left right : Value) : compare op.text left right = .ok (left.satisfies op right) := by
  rw [compare, ofText?_text]
  cases op with
  | eq => exact equal_eq left right
  | ne =>
    show (equal left right >>= _) = _
    rw [equal_eq]
    rfl
  | gt => exact ordered_eq rfl left right
  | lt => exact ordered_eq rfl left right
  | ge => exact ordered_eq rfl left right
  | le => exact ordered_eq rfl left right

/-! ## The walk -/

theorem satisfies_eq (hole : Value) (op : Operator) (literal : Literal) (o : Outcome) :
    satisfies hole op literal o = .ok (o.satisfies hole op literal) := by
  rw [satisfies, condense_eq, Outcome.satisfies]
  cases h : TreePath.condense (o.entries.filterMap (Match.present? hole)) with
  | some v => exact compare_text op v literal.toValue
  | none => rfl

theorem fromAll_ok (k : Value → Outcome) (ws : List Value) :
    fromAll (fun w => .ok (k w)) ws = .ok (.join (ws.map k)) := by
  have hmap : ws.mapM (fun w => (.ok (k w) : Except Trap Outcome)) = .ok (ws.map k) := List.mapM_pure
  rw [fromAll, hmap]
  rfl

/-- A bare slot holds the one entry that there is. -/
theorem slot_eq {o : Outcome} {bare : Bool} (h : bare = true → o.entries.length = 1) :
    slot bare o = .ok (o.slot bare) := by
  cases bare with
  | false => rfl
  | true =>
    obtain ⟨m, hm⟩ := List.length_eq_one_iff.1 (h rfl)
    simp only [slot, Outcome.slot, hm]
    rfl

/-- With no entry there would be nothing to read. -/
example : slot true .empty = .error .index := rfl

theorem fromMember_eq (key : Text) (k : Value → Outcome) (v : Value) :
    fromMember key (fun w => .ok (k w)) v = .ok (.join ((v.member? key).toList.map k)) := by
  cases v with
  | object ms =>
    rw [fromMember, hasKey_eq, Value.member?]
    cases h : ms.lookup key with
    | some w =>
      rw [memberAt_eq h]
      exact congrArg Except.ok (Outcome.join_singleton (k w)).symm
    | none => rfl
  | _ => rfl

theorem descend_eq (key : Text) (k : Value → Outcome) (todo : List Value) :
    descend key (fun w => .ok (k w)) todo = .ok (.join ((Value.membersBelow key todo).map k)) := by
  fun_induction Value.membersBelow key todo with
  | case1 => rw [descend]; rfl
  | case2 v todo ih =>
    rw [descend, fromMember_eq, ih, List.map_append, Outcome.join_append]
    rfl

section Walk

variable (σ : Scope)

mutual

theorem selector_eq (k : Value → Outcome) : ∀ (s : Selector) (v : Value),
    selector σ (fun w => .ok (k w)) s v = .ok (s.run σ k v)
  | .child key, v => by
    rw [selector, child_eq, Selector.run]
    cases v.child? key with
    | none => rfl
    | some w =>
      dsimp only
      exact (apply_ite Except.ok (w.isMissing = true) Outcome.absence (k w)).symm
  | .slice bounds, v => by
    rw [selector, Selector.run]
    cases v.elements? with
    | none => rfl
    | some xs =>
      dsimp only
      rw [Option.bind_some, Slice.pick?]
      by_cases h : bounds.first = bounds.last.getD xs.length
      · rw [if_pos h, if_pos h]
      · rw [if_neg h, if_neg h, slice, if_neg (Nat.ne_of_gt bounds.step_pos)]
        exact fromAll_ok k _
  | .wildcard, v => by
    rw [selector, Selector.run]
    cases v.children? with
    | some ws => exact fromAll_ok k ws
    | none => rfl
  | .filter source head tail op literal, v => by
    rw [selector, run_filter]
    cases v.children? with
    | some ws =>
      -- One child after the other, it is enough to look at one.
      refine Eq.trans (congrArg (fun f => fromAll f ws) (funext fun w => ?_)) (fromAll_ok _ ws)
      have htest : token σ (path σ tail) (tail.all Token.isStep) head w =
          .ok (head.run σ (run σ tail) (tail.all Token.isStep) w) := by
        rw [funext (path_eq tail)]
        exact token_eq tail head w
      rw [htest]
      show (satisfies σ.missing op literal (run σ (head :: tail) w) >>= _) = _
      rw [satisfies_eq]
      cases hkept : (run σ (head :: tail) w).satisfies σ.missing op literal with
      | true =>
        dsimp only
        rw [hkept]
        rfl
      | false =>
        dsimp only
        rw [hkept]
        exact congrArg Except.ok (Outcome.append_empty _).symm
    | none => rfl

theorem token_eq (ts : List Token) : ∀ (t : Token) (v : Value),
    token σ (fun w => .ok (run σ ts w)) (ts.all Token.isStep) t v = .ok (t.run σ (run σ ts) (ts.all Token.isStep) v)
  | .root, v => rfl
  | .current, v => rfl
  | .select s, v => selector_eq (run σ ts) s v
  | .descend key _, v => descend_eq key (run σ ts) [v]
  | .union first others, v => by
    rw [token, Token.run, selector_eq (run σ ts) first v, alternatives_eq ts others v]
    show (contribution σ.mode _ (first.run σ (run σ ts) v) >>= _) = _
    cases σ.mode with
    | flat => rfl
    | nested =>
      rw [contribution, slot_eq fun hb => length_entries_alternative σ hb v]
      rfl

theorem alternatives_eq (ts : List Token) : ∀ (ss : List Selector) (v : Value),
    alternatives σ (fun w => .ok (run σ ts w)) (ts.all Token.isStep) ss v =
      .ok (runOthers σ (run σ ts) (ts.all Token.isStep) ss v)
  | [], v => rfl
  | s :: ss, v => by
    rw [alternatives, runOthers, selector_eq (run σ ts) s v, alternatives_eq ts ss v]
    show (contribution σ.mode _ (s.run σ (run σ ts) v) >>= _) = _
    cases σ.mode with
    | flat => rfl
    | nested =>
      rw [contribution, slot_eq fun hb => length_entries_alternative σ hb v]
      rfl

/-- A walk fails nowhere. -/
theorem path_eq : ∀ (ts : List Token) (v : Value), path σ ts v = .ok (run σ ts v)
  | [], v => rfl
  | t :: ts, v => by
    rw [path, funext (path_eq ts), token_eq ts t v]
    rfl

end

end Walk

theorem evaluate_eq (c : Config) (document : Value) (item : Option Value) (p : Path) :
    evaluate c document item p = .ok (c.evaluate document item p) := by
  rw [evaluate, path_eq]
  rfl

/-- A path of steps leads to exactly one entry, so that a bare slot drops none. -/
theorem path_of_steps (σ : Scope) {ts : List Token} (h : ts.all Token.isStep = true) (v : Value) :
    ∃ o, path σ ts v = .ok o ∧ o.entries.length = 1 ∧ slot true o = .ok o := by
  have hlength := length_entries_of_steps σ h v
  refine ⟨run σ ts v, path_eq σ ts v, hlength, ?_⟩
  rw [slot_eq fun _ => hlength]
  exact congrArg Except.ok (congrArg (fun es => { run σ ts v with entries := es }) (Outcome.entries_slot_bare hlength))

/-- **Evaluation fails nowhere.** With operations that stop where they are not defined an evaluation gives its report,
whatever the document, the item, the path and the mode. In particular a path of steps leads from every value to exactly
one entry, which is what a bare slot reads; and no pair of values stops a comparison. -/
theorem evaluate_fails_nowhere :
    (∀ (c : Config) (document : Value) (item : Option Value) (p : Path),
      evaluate c document item p = .ok (c.evaluate document item p)) ∧
    (∀ (σ : Scope) (ts : List Token) (v : Value), ts.all Token.isStep = true →
      ∃ o, path σ ts v = .ok o ∧ o.entries.length = 1 ∧ slot true o = .ok o) ∧
    ∀ (op : Operator) (left right : Value), compare op.text left right = .ok (left.satisfies op right) :=
  ⟨evaluate_eq, fun σ _ v h => path_of_steps σ h v, compare_text⟩

/-- A signalling NaN is different from a number, and not greater; an index out of range is an absence. -/
theorem evaluate_fails_nowhere_signaling :
    let signaling : Value := .number (.decimal (.nan false true 0))
    let document : Value := .list [signaling, .bool true]
    let filtered : Token := .select (.filter none .current [] .ne (.int 2))
    let slots : Token := .union (.child (.index (-1))) [.child (.index 2)]
    (evaluate ⟨.nested, .null, false⟩ document none ⟨[filtered], none⟩).map Report.results =
        .ok [signaling, .bool true] ∧
      (evaluate ⟨.nested, .null, false⟩ document none ⟨[slots], none⟩).map Report.results = .ok [.bool true, .null] ∧
      (∃ o, path ⟨.nested, .null, document⟩ [.root, .child (.index 2)] .null = .ok o ∧ o.entries.length = 1 ∧
        slot true o = .ok o) ∧
      compare (chars ['>']) signaling (.int 2) = .ok false := by
  intro signaling document filtered slots
  obtain ⟨hevaluate, hpath, hcompare⟩ := evaluate_fails_nowhere
  refine ⟨?_, ?_, hpath _ [.root, .child (.index 2)] _ rfl, hcompare .gt signaling (.int 2)⟩
  · rw [hevaluate]
    rfl
  · rw [hevaluate]
    rfl

end TreePath.Guarded
