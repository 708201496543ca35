import TreePath.Path.Basic

/-!
# Equality of paths

Two paths are equal when they have the same tokens, where sources do not count and literals are compared as plain
values: truth values are the numbers zero and one, and numbers of every kind are compared by value.
-/

namespace TreePath

/-- The number that a literal counts as, if it counts as one. -/
def Literal.number? : Literal → Option Number
  | .bool b => some (.int b.toNat)
  | .int n => some (.int n)
  | .float x => some (.float (.finite x))
  | _ => none

def Literal.same : Literal → Literal → Bool
  | .null, .null => true
  | .string s, .string t => s == t
  | a, b => match a.number?, b.number? with
    | some x, some y => x.equal y
    | _, _ => false

mutual

def Selector.same : Selector → Selector → Bool
  | .child a, .child b => a == b
  | .slice a, .slice b => a == b
  | .wildcard, .wildcard => true
  | .filter _ t ts op a, .filter _ u us op' b => t.same u && sameTokens ts us && op == op' && a.same b
  | _, _ => false

def Token.same : Token → Token → Bool
  | .root, .root => true
  | .current, .current => true
  | .select a, .select b => a.same b
  | .descend k _, .descend l _ => k == l
  | .union a as, .union b bs => a.same b && sameSelectors as bs
  | _, _ => false

def sameTokens : List Token → List Token → Bool
  | [], [] => true
  | t :: ts, u :: us => t.same u && sameTokens ts us
  | _, _ => false

def sameSelectors : List Selector → List Selector → Bool
  | [], [] => true
  | a :: as, b :: bs => a.same b && sameSelectors as bs
  | _, _ => false

end

/-! ## What is equal to what -/

theorem Selector.eq_of_same_child {key : Key} {s : Selector} (h : (child key).same s = true) : s = .child key := by
  cases s with
  | child key' =>
    rw [same, beq_iff_eq] at h
    rw [h]
  | _ => simp [same] at h

theorem Selector.eq_of_same_slice {bounds : Slice} {s : Selector} (h : (slice bounds).same s = true) :
    s = .slice bounds := by
  cases s with
  | slice bounds' =>
    rw [same, beq_iff_eq] at h
    rw [h]
  | _ => simp [same] at h

theorem Selector.eq_of_same_wildcard {s : Selector} (h : wildcard.same s = true) : s = .wildcard := by
  cases s with
  | wildcard => rfl
  | _ => simp [same] at h

/-- A filter is equal to filters with the same operator only; their paths and their literals are equal. -/
theorem Selector.exists_of_same_filter {source : Option Text} {head : Token} {tail : List Token} {op : Operator}
    {a : Literal} {s : Selector} (h : (filter source head tail op a).same s = true) :
    ∃ source' head' tail' a', s = .filter source' head' tail' op a' ∧ head.same head' = true ∧
      sameTokens tail tail' = true ∧ a.same a' = true := by
  cases s with
  | filter source' head' tail' op' a' =>
    simp only [same, Bool.and_eq_true, beq_iff_eq] at h
    obtain ⟨⟨⟨hhead, htail⟩, rfl⟩, ha⟩ := h
    exact ⟨source', head', tail', a', rfl, hhead, htail, ha⟩
  | _ => simp [same] at h

theorem Token.eq_of_same_root {t : Token} (h : root.same t = true) : t = .root := by
  cases t with
  | root => rfl
  | _ => simp [same] at h

theorem Token.eq_of_same_current {t : Token} (h : current.same t = true) : t = .current := by
  cases t with
  | current => rfl
  | _ => simp [same] at h

theorem Token.eq_of_same_descend {key : Text} {hkey : key ≠ []} {t : Token} (h : (descend key hkey).same t = true) :
    t = .descend key hkey := by
  cases t with
  | descend key' hkey' =>
    rw [same, beq_iff_eq] at h
    subst h
    rfl
  | _ => simp [same] at h

theorem Token.exists_of_same_select {s : Selector} {t : Token} (h : (select s).same t = true) :
    ∃ s', t = .select s' ∧ s.same s' = true := by
  cases t with
  | select s' =>
    rw [same] at h
    exact ⟨s', rfl, h⟩
  | _ => simp [same] at h

theorem Token.exists_of_same_union {first : Selector} {others : List Selector} {t : Token}
    (h : (union first others).same t = true) :
    ∃ first' others', t = .union first' others' ∧ first.same first' = true ∧ sameSelectors others others' = true := by
  cases t with
  | union first' others' =>
    rw [same, Bool.and_eq_true] at h
    exact ⟨first', others', rfl, h⟩
  | _ => simp [same] at h

theorem eq_of_sameTokens_nil {us : List Token} (h : sameTokens [] us = true) : us = [] := by
  cases us with
  | nil => rfl
  | cons u us => simp [sameTokens] at h

theorem exists_of_sameTokens_cons {t : Token} {ts us : List Token} (h : sameTokens (t :: ts) us = true) :
    ∃ u us', us = u :: us' ∧ t.same u = true ∧ sameTokens ts us' = true := by
  cases us with
  | nil => simp [sameTokens] at h
  | cons u us =>
    rw [sameTokens, Bool.and_eq_true] at h
    exact ⟨u, us, rfl, h⟩

theorem eq_of_sameSelectors_nil {bs : List Selector} (h : sameSelectors [] bs = true) : bs = [] := by
  cases bs with
  | nil => rfl
  | cons b bs => simp [sameSelectors] at h

theorem exists_of_sameSelectors_cons {a : Selector} {as bs : List Selector} (h : sameSelectors (a :: as) bs = true) :
    ∃ b bs', bs = b :: bs' ∧ a.same b = true ∧ sameSelectors as bs' = true := by
  cases bs with
  | nil => simp [sameSelectors] at h
  | cons b bs =>
    rw [sameSelectors, Bool.and_eq_true] at h
    exact ⟨b, bs, rfl, h⟩

/-! ## Paths -/

def Path.same (p q : Path) : Bool := sameTokens p.tokens q.tokens

/-- For each path the place of the first path that is equal to it. -/
def Path.firstSame (ps : List Path) : List Nat := ps.map fun p => ps.findIdx fun q => q.same p

end TreePath
