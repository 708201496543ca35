import TreePath.Path.Equality
import TreePath.Proofs.ExactOrder
import TreePath.Query.Report

/-!
# Equal paths are interchangeable

Equality of paths compares literals as plain values, so that numbers of different types may stand for each other and a
truth value is the number zero or one. Comparisons look at the kind of a value first. Equal paths give the same results
if they have truth values at the same places (`evaluate_of_same`); a truth value in place of a number selects something
else (`results_bool_number`).
-/

namespace TreePath

def Literal.isBool : Literal → Bool
  | .bool _ => true
  | _ => false

mutual

def Selector.literals : Selector → List Literal
  | .filter _ head tail _ literal => head.literals ++ literalsAll tail ++ [literal]
  | _ => []

def Token.literals : Token → List Literal
  | .select s => s.literals
  | .union first others => first.literals ++ literalsOthers others
  | _ => []

def literalsAll : List Token → List Literal
  | [] => []
  | t :: ts => t.literals ++ literalsAll ts

def literalsOthers : List Selector → List Literal
  | [] => []
  | s :: ss => s.literals ++ literalsOthers ss

end

/-- The literals of the filters of a path, at any depth. -/
def Path.literals (p : Path) : List Literal := literalsAll p.tokens

/-! ## Literals -/

/-- Equal literals of one kind are one literal or two equal numbers on the real line. -/
theorem Literal.cases_of_same {a b : Literal} (h : a.same b = true) (hkind : a.isBool = b.isBool) :
    a = b ∨ ∃ x y : Number, a.toValue = .number x ∧ b.toValue = .number y ∧ x.equal y = true ∧
      x.line? = x.realPart? ∧ y.line? = y.realPart? := by
  cases a with
  | null => cases b <;> first | exact Or.inl rfl | cases h
  | string s =>
    cases b with
    | string t =>
      rw [Literal.same, beq_iff_eq] at h
      exact Or.inl (congrArg Literal.string h)
    | _ => cases h
  | bool a =>
    cases b with
    | bool b =>
      cases a <;> cases b <;> first | exact Or.inl rfl | exact absurd h (by decide)
    | _ => cases hkind
  | int m =>
    cases b with
    | int n => exact Or.inr ⟨_, _, rfl, rfl, h, rfl, rfl⟩
    | float y => exact Or.inr ⟨_, _, rfl, rfl, h, rfl, rfl⟩
    | bool b => cases hkind
    | _ => cases h
  | float x =>
    cases b with
    | int n => exact Or.inr ⟨_, _, rfl, rfl, h, rfl, rfl⟩
    | float y => exact Or.inr ⟨_, _, rfl, rfl, h, rfl, rfl⟩
    | bool b => cases hkind
    | _ => cases h

/-- Equal literals of one kind satisfy the same comparisons. -/
theorem Literal.satisfies_of_same {a b : Literal} (h : a.same b = true) (hkind : a.isBool = b.isBool) (op : Operator)
    (v : Value) : Value.satisfies op v a.toValue = Value.satisfies op v b.toValue := by
  rcases Literal.cases_of_same h hkind with rfl | ⟨x, y, ha, hb, hxy, hx, hy⟩
  · rfl
  · have hequal : v.equal a.toValue = v.equal b.toValue := by
      rw [ha, hb]
      cases v with
      | number z => exact Number.equal_congr_right hxy z
      | _ => rfl
    have horder : v.order? a.toValue = v.order? b.toValue := by
      rw [ha, hb]
      cases v with
      | number z => exact Number.order?_congr_right hxy hx hy z
      | _ => rfl
    cases op <;> simp only [Value.satisfies, hequal, horder]

/-! ## Literals at the same places -/

mutual

theorem Selector.length_literals_of_same : ∀ (s s' : Selector), s.same s' = true →
    s.literals.length = s'.literals.length
  | .child _, s', h => by rw [Selector.eq_of_same_child h]
  | .slice _, s', h => by rw [Selector.eq_of_same_slice h]
  | .wildcard, s', h => by rw [Selector.eq_of_same_wildcard h]
  | .filter _ head tail _ _, s', h => by
    obtain ⟨_, head', tail', _, rfl, hhead, htail, _⟩ := Selector.exists_of_same_filter h
    simp only [Selector.literals, List.length_append, Token.length_literals_of_same head head' hhead,
      length_literalsAll_of_same tail tail' htail, List.length_singleton]

theorem Token.length_literals_of_same : ∀ (t t' : Token), t.same t' = true → t.literals.length = t'.literals.length
  | .root, t', h => by rw [Token.eq_of_same_root h]
  | .current, t', h => by rw [Token.eq_of_same_current h]
  | .descend _ _, t', h => by rw [Token.eq_of_same_descend h]
  | .select s, t', h => by
    obtain ⟨s', rfl, hs⟩ := Token.exists_of_same_select h
    exact Selector.length_literals_of_same s s' hs
  | .union first others, t', h => by
    obtain ⟨first', others', rfl, hfirst, hothers⟩ := Token.exists_of_same_union h
    rw [Token.literals, Token.literals, List.length_append, List.length_append,
      Selector.length_literals_of_same first first' hfirst, length_literalsOthers_of_same others others' hothers]

theorem length_literalsAll_of_same : ∀ (ts ts' : List Token), sameTokens ts ts' = true →
    (literalsAll ts).length = (literalsAll ts').length
  | [], ts', h => by rw [eq_of_sameTokens_nil h]
  | t :: ts, ts', h => by
    obtain ⟨t', ts', rfl, ht, hts⟩ := exists_of_sameTokens_cons h
    rw [literalsAll, literalsAll, List.length_append, List.length_append, Token.length_literals_of_same t t' ht,
      length_literalsAll_of_same ts ts' hts]

theorem length_literalsOthers_of_same : ∀ (ss ss' : List Selector), sameSelectors ss ss' = true →
    (literalsOthers ss).length = (literalsOthers ss').length
  | [], ss', h => by rw [eq_of_sameSelectors_nil h]
  | s :: ss, ss', h => by
    obtain ⟨s', ss', rfl, hs, hss⟩ := exists_of_sameSelectors_cons h
    rw [literalsOthers, literalsOthers, List.length_append, List.length_append,
      Selector.length_literals_of_same s s' hs, length_literalsOthers_of_same ss ss' hss]

end

/-- Two lists of literals have truth values at the same places. -/
def SameBools (as bs : List Literal) : Prop := as.map Literal.isBool = bs.map Literal.isBool

instance (as bs : List Literal) : Decidable (SameBools as bs) := inferInstanceAs (Decidable (_ = _))

theorem SameBools.of_append {as bs as' bs' : List Literal} (h : SameBools (as ++ bs) (as' ++ bs'))
    (hlength : as.length = as'.length) : SameBools as as' ∧ SameBools bs bs' := by
  rw [SameBools, List.map_append, List.map_append] at h
  exact List.append_inj h (by rw [List.length_map, List.length_map, hlength])

/-! ## Walks along equal paths -/

theorem Selector.isStep_of_same {s s' : Selector} (h : s.same s' = true) :
    (Token.select s).isStep = (Token.select s').isStep := by
  cases s with
  | child _ => rw [Selector.eq_of_same_child h]
  | slice _ => rw [Selector.eq_of_same_slice h]
  | wildcard => rw [Selector.eq_of_same_wildcard h]
  | filter _ _ _ _ _ =>
    obtain ⟨_, _, _, _, rfl, _⟩ := Selector.exists_of_same_filter h
    rfl

theorem Token.isStep_of_same {t t' : Token} (h : t.same t' = true) : t.isStep = t'.isStep := by
  cases t with
  | root => rw [Token.eq_of_same_root h]
  | current => rw [Token.eq_of_same_current h]
  | descend _ _ => rw [Token.eq_of_same_descend h]
  | select s =>
    obtain ⟨s', rfl, hs⟩ := Token.exists_of_same_select h
    exact Selector.isStep_of_same hs
  | union _ _ =>
    obtain ⟨_, _, rfl, _⟩ := Token.exists_of_same_union h
    rfl

theorem all_isStep_of_same : ∀ {ts ts' : List Token}, sameTokens ts ts' = true →
    ts.all Token.isStep = ts'.all Token.isStep
  | [], ts', h => by rw [eq_of_sameTokens_nil h]
  | t :: ts, ts', h => by
    obtain ⟨t', ts', rfl, ht, hts⟩ := exists_of_sameTokens_cons h
    rw [List.all_cons, List.all_cons, Token.isStep_of_same ht, all_isStep_of_same hts]

mutual

theorem Selector.run_of_same (σ : Scope) (k : Value → Outcome) : ∀ (s s' : Selector), s.same s' = true →
    SameBools s.literals s'.literals → s.run σ k = s'.run σ k
  | .child _, s', h, _ => by rw [Selector.eq_of_same_child h]
  | .slice _, s', h, _ => by rw [Selector.eq_of_same_slice h]
  | .wildcard, s', h, _ => by rw [Selector.eq_of_same_wildcard h]
  | .filter _ head tail op literal, s', h, hbools => by
    obtain ⟨_, head', tail', literal', rfl, hhead, htail, hliteral⟩ := Selector.exists_of_same_filter h
    have hlength := Token.length_literals_of_same head head' hhead
    obtain ⟨hpath, hkind⟩ := hbools.of_append (by
      rw [List.length_append, List.length_append, hlength, length_literalsAll_of_same tail tail' htail])
    obtain ⟨hkinds, hkinds'⟩ := hpath.of_append hlength
    have hwalk : run σ (head :: tail) = run σ (head' :: tail') := by
      funext w
      rw [run_cons, run_cons, all_isStep_of_same htail, run_of_same σ tail tail' htail hkinds',
        Token.run_of_same σ _ _ head head' hhead hkinds]
    have hsatisfies : ∀ o : Outcome, o.satisfies σ.missing op literal = o.satisfies σ.missing op literal' := by
      intro o
      unfold Outcome.satisfies
      simp only [Literal.satisfies_of_same hliteral (List.cons.inj hkind).1]
    funext v
    rw [run_filter, run_filter]
    simp only [hwalk, hsatisfies]

theorem Token.run_of_same (σ : Scope) (k : Value → Outcome) (single : Bool) : ∀ (t t' : Token), t.same t' = true →
    SameBools t.literals t'.literals → t.run σ k single = t'.run σ k single
  | .root, t', h, _ => by rw [Token.eq_of_same_root h]
  | .current, t', h, _ => by rw [Token.eq_of_same_current h]
  | .descend _ _, t', h, _ => by rw [Token.eq_of_same_descend h]
  | .select s, t', h, hbools => by
    obtain ⟨s', rfl, hs⟩ := Token.exists_of_same_select h
    funext v
    exact congrFun (Selector.run_of_same σ k s s' hs hbools) v
  | .union first others, t', h, hbools => by
    obtain ⟨first', others', rfl, hfirst, hothers⟩ := Token.exists_of_same_union h
    obtain ⟨hkinds, hkinds'⟩ := hbools.of_append (Selector.length_literals_of_same first first' hfirst)
    funext v
    rw [Token.run, Token.run, Selector.run_of_same σ k first first' hfirst hkinds,
      runOthers_of_same σ k single others others' hothers hkinds', Selector.isStep_of_same hfirst]

theorem runOthers_of_same (σ : Scope) (k : Value → Outcome) (single : Bool) : ∀ (ss ss' : List Selector),
    sameSelectors ss ss' = true → SameBools (literalsOthers ss) (literalsOthers ss') →
      runOthers σ k single ss = runOthers σ k single ss'
  | [], ss', h, _ => by rw [eq_of_sameSelectors_nil h]
  | s :: ss, ss', h, hbools => by
    obtain ⟨s', ss', rfl, hs, hss⟩ := exists_of_sameSelectors_cons h
    obtain ⟨hkinds, hkinds'⟩ := hbools.of_append (Selector.length_literals_of_same s s' hs)
    funext v
    rw [runOthers, runOthers, Selector.run_of_same σ k s s' hs hkinds,
      runOthers_of_same σ k single ss ss' hss hkinds', Selector.isStep_of_same hs]

/-- Walks along equal paths with truth values at the same places are the same. -/
theorem run_of_same (σ : Scope) : ∀ (ts ts' : List Token), sameTokens ts ts' = true →
    SameBools (literalsAll ts) (literalsAll ts') → run σ ts = run σ ts'
  | [], ts', h, _ => by rw [eq_of_sameTokens_nil h]
  | t :: ts, ts', h, hbools => by
    obtain ⟨t', ts', rfl, ht, hts⟩ := exists_of_sameTokens_cons h
    obtain ⟨hkinds, hkinds'⟩ := hbools.of_append (Token.length_literals_of_same t t' ht)
    funext v
    rw [run_cons, run_cons, all_isStep_of_same hts, run_of_same σ ts ts' hts hkinds',
      Token.run_of_same σ _ _ t t' ht hkinds]

end

/-- **Equal paths are interchangeable where they have truth values at the same places.** They give the same results,
count the same absences and visit their tokens equally often. -/
theorem evaluate_of_same (c : Config) (document : Value) (item : Option Value) {p q : Path} (h : p.same q = true)
    (hbools : SameBools p.literals q.literals) :
    (c.evaluate document item p).results = (c.evaluate document item q).results ∧
      (c.evaluate document item p).absent = (c.evaluate document item q).absent ∧
      (c.evaluate document item p).visits = (c.evaluate document item q).visits := by
  have hrun := run_of_same (c.scope document) p.tokens q.tokens h hbools
  unfold Config.evaluate
  rw [hrun]
  exact ⟨rfl, rfl, rfl⟩

/-- The literals `0` and `-0.0` in a filter inside a filter, whose own literal is a truth value. -/
theorem evaluate_of_same_zeros :
    let path (zero : Literal) : Path :=
      ⟨[.root, .select (.filter none .current [.select (.filter none .current [] .ge zero)] .ne (.bool true))], none⟩
    let zero : Literal := .int 0
    let minusZero : Literal := .float ⟨true, 0, by decide⟩
    let document : Value := .list [.list [.int 0], .list []]
    (path zero).same (path minusZero) = true ∧ SameBools (path zero).literals (path minusZero).literals ∧
      (Config.evaluate ⟨.flat, .null, false⟩ document none (path minusZero)).results = [.list [.int 0]] := by
  intro path zero minusZero document
  have hsame : (path zero).same (path minusZero) = true := by decide +kernel
  have hbools : SameBools (path zero).literals (path minusZero).literals := rfl
  refine ⟨hsame, hbools, ?_⟩
  rw [← (evaluate_of_same ⟨.flat, .null, false⟩ document none hsame hbools).1]
  rfl

/-- A truth value equals a number as a literal, and not as a value. -/
theorem results_bool_number :
    let path (literal : Literal) : Path := ⟨[.root, .select (.filter none .current [] .eq literal)], none⟩
    let document : Value := .list [.bool false, .int 0]
    (path (.bool false)).same (path (.int 0)) = true ∧
      (Config.evaluate ⟨.flat, .null, false⟩ document none (path (.bool false))).results = [.bool false] ∧
      (Config.evaluate ⟨.flat, .null, false⟩ document none (path (.int 0))).results = [.int 0] :=
  ⟨by decide +kernel, rfl, rfl⟩

end TreePath
