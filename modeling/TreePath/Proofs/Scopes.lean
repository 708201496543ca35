import TreePath.Proofs.Filters

/-!
# What a walk depends on

Of its scope a walk depends on the mode of unions, and on the root of the document only if some token leads back to the
root, at the top level, in an alternative of a union or inside a filter (`run_of_scopes`). A path without such a token
is local: from one item it finds the same in every document (`evaluate_local`).

What stands for an absence has no influence. In nested mode it is put into the lists of slots while filters still
compare them; but a filter compares with a literal, which is no list, and a list satisfies the same comparisons whatever
it holds (`satisfies_of_slot`), and outside lists absences are left out (`satisfies_of_no_slot`). So no test of a filter
depends on it (`Outcome.satisfies_hole`).
-/

namespace TreePath

/-! ## Tests of filters -/

/-- Whether the match is something else than an absence. -/
def Match.isPresent : Match → Bool
  | .absent => false
  | _ => true

theorem filterMap_present_eq_map (hole : Value) (ms : List Match) :
    ms.filterMap (Match.present? hole) = (ms.filter Match.isPresent).map (Match.render hole) := by
  induction ms with
  | nil => rfl
  | cons m ms ih =>
    rw [List.filterMap_cons, List.filter_cons, ih]
    cases m <;> rfl

/-- The test of a filter does not depend on the hole. -/
theorem Outcome.satisfies_hole (o : Outcome) (hole hole' : Value) (op : Operator) (literal : Literal) :
    o.satisfies hole op literal = o.satisfies hole' op literal := by
  rw [Bool.eq_iff_iff]
  by_cases hslot : ∃ ms, .slot ms ∈ o.entries
  · obtain ⟨ms, hms⟩ := hslot
    rw [satisfies_of_slot hms hole, satisfies_of_slot hms hole']
  · have hno : ∀ ms, .slot ms ∉ o.entries := fun ms hms => hslot ⟨ms, hms⟩
    rw [satisfies_of_no_slot hno hole, satisfies_of_no_slot hno hole']

/-! ## Paths that lead back to the root -/

mutual

/-- Whether a token inside the filter leads back to the root, at any depth; other selectors have no inside. -/
def Selector.hasRoot : Selector → Bool
  | .filter _ head tail _ _ => head.hasRoot || anyRoot tail
  | _ => false

/-- Whether the token leads back to the root, or one inside it does. -/
def Token.hasRoot : Token → Bool
  | .root => true
  | .select s => s.hasRoot
  | .union first others => first.hasRoot || anyRootOthers others
  | _ => false

def anyRoot : List Token → Bool
  | [] => false
  | t :: ts => t.hasRoot || anyRoot ts

def anyRootOthers : List Selector → Bool
  | [] => false
  | s :: ss => s.hasRoot || anyRootOthers ss

end

/-- Whether a token of the path leads back to the root, at any depth. -/
def Path.hasRoot (p : Path) : Bool := anyRoot p.tokens

/-! ## Walks in two scopes -/

section Scopes

variable (σ : Scope) (hole root : Value)

mutual

theorem Selector.run_of_scopes (k : Value → Outcome) : ∀ s : Selector,
    (s.hasRoot = true → root = σ.root) → ∀ v : Value, s.run { σ with missing := hole, root := root } k v = s.run σ k v
  | .child _, _, _ | .slice _, _, _ | .wildcard, _, _ => rfl
  | .filter _ head tail op literal, hroot, v => by
    rw [Selector.hasRoot, Bool.or_eq_true, or_imp] at hroot
    obtain ⟨hhead, htail⟩ := hroot
    have hwalk : ∀ w, run { σ with missing := hole, root := root } (head :: tail) w = run σ (head :: tail) w := by
      intro w
      rw [run_cons, run_cons, Token.run_of_scopes _ _ head hhead, funext (run_of_scopes tail htail)]
    have htest : ∀ o : Outcome, o.satisfies hole op literal = o.satisfies σ.missing op literal := fun o =>
      o.satisfies_hole hole σ.missing op literal
    rw [run_filter, run_filter]
    simp only [hwalk, htest]

theorem Token.run_of_scopes (k : Value → Outcome) (single : Bool) : ∀ t : Token,
    (t.hasRoot = true → root = σ.root) → ∀ v : Value,
      t.run { σ with missing := hole, root := root } k single v = t.run σ k single v
  | .root, hroot, _ => congrArg k (hroot rfl)
  | .current, _, _ | .descend .., _, _ => rfl
  | .select s, hroot, v => Selector.run_of_scopes k s hroot v
  | .union first others, hroot, v => by
    rw [Token.hasRoot, Bool.or_eq_true, or_imp] at hroot
    obtain ⟨hfirst, hothers⟩ := hroot
    rw [Token.run, Token.run, Selector.run_of_scopes k first hfirst v, runOthers_of_scopes k single others hothers v]

theorem runOthers_of_scopes (k : Value → Outcome) (single : Bool) : ∀ ss : List Selector,
    (anyRootOthers ss = true → root = σ.root) → ∀ v : Value,
      runOthers { σ with missing := hole, root := root } k single ss v = runOthers σ k single ss v
  | [], _, _ => rfl
  | s :: ss, hroot, v => by
    rw [anyRootOthers, Bool.or_eq_true, or_imp] at hroot
    obtain ⟨hs, hss⟩ := hroot
    rw [runOthers, runOthers, Selector.run_of_scopes k s hs v, runOthers_of_scopes k single ss hss v]

/-- A walk does not depend on the hole, nor on the root if no token leads back to it. -/
theorem run_of_scopes : ∀ ts : List Token, (anyRoot ts = true → root = σ.root) → ∀ v : Value,
    run { σ with missing := hole, root := root } ts v = run σ ts v
  | [], _, _ => rfl
  | t :: ts, hroot, v => by
    rw [anyRoot, Bool.or_eq_true, or_imp] at hroot
    obtain ⟨ht, hts⟩ := hroot
    rw [run_cons, run_cons, Token.run_of_scopes _ _ t ht, funext (run_of_scopes ts hts)]

end

end Scopes

/-! ## Local paths -/

/-- **Paths that do not lead back to the root are local.** From one item such a path finds the same in every document,
with the same absences and visits; so it also finds what it finds in the document that is the item itself. -/
theorem evaluate_local (c : Config) (document document' item : Value) (p : Path) (h : p.hasRoot = false) :
    run (c.scope document) p.tokens item = run (c.scope document') p.tokens item ∧
    c.evaluate document (some item) p = c.evaluate document' (some item) p ∧
    c.evaluate document (some item) p = c.evaluate item none p := by
  have hrun : ∀ root : Value, run (c.scope root) p.tokens item = run (c.scope document) p.tokens item := by
    intro root
    apply run_of_scopes (c.scope document) c.missing root p.tokens
    intro hroot
    cases h.symm.trans hroot
  refine ⟨(hrun document').symm, ?_, ?_⟩
  · exact congrArg (Outcome.report · c.missing p) (hrun document').symm
  · exact congrArg (Outcome.report · c.missing p) (hrun item).symm

/-- A union of a member and of a filter with a filter inside, in nested mode; the other document has no members. -/
theorem evaluate_local_union :
    let inner : Selector := .filter none .current [] .eq (.bool true)
    let outer : Selector := .filter none .current [.select inner] .ge (.bool false)
    let p : Path := ⟨[.current, .union (.child (.name "a")) [outer]], none⟩
    let yes : Value := .list [.bool true]
    let both : Value := .list [.bool false, .bool true]
    let item : Value := .object [("a", yes), ("b", both)]
    p.hasRoot = false ∧
      (Config.evaluate ⟨.nested, .null, false⟩ item (some item) p).results = [yes, .list [yes, both]] ∧
      (Config.evaluate ⟨.nested, .null, false⟩ .null (some item) p).results = [yes, .list [yes, both]] := by
  intro inner outer p yes both item
  have hlocal := evaluate_local ⟨.nested, .null, false⟩ .null item item p rfl
  refine ⟨rfl, rfl, ?_⟩
  rw [hlocal.2.1]
  rfl

end TreePath
