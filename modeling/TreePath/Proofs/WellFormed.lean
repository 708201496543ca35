import TreePath.Path.Equality
import TreePath.Proofs.Derivation
import TreePath.Proofs.Spelling

/-!
# Well-formed paths

A path is well-formed if it is not empty, anchors stand in front only and no union has a single alternative, in it and
in the paths of all its filters (`Path.isWellFormed`).

* The spelling of a well-formed path is the spelling of a derivation that stands for it (`Path.exists_tree`).
* What a derivation stands for is well-formed, its integers are short, and its filters have no sources
  (`PathTree.isRead`).
* Equality of paths respects well-formedness (`Path.isWellFormed_of_same`).
-/

namespace TreePath

/-! ## Definitions -/

def Token.isAnchor : Token → Bool
  | .root => true
  | .current => true
  | _ => false

mutual

def Selector.isWellFormed : Selector → Bool
  | .filter _ head tail _ _ => head.isWellFormed && followWellFormed tail
  | _ => true

def Token.isWellFormed : Token → Bool
  | .select s => s.isWellFormed
  | .union first others => !others.isEmpty && first.isWellFormed && othersWellFormed others
  | _ => true

/-- The tokens behind the first one. -/
def followWellFormed : List Token → Bool
  | [] => true
  | t :: ts => !t.isAnchor && t.isWellFormed && followWellFormed ts

def othersWellFormed : List Selector → Bool
  | [] => true
  | s :: ss => s.isWellFormed && othersWellFormed ss

end

def Path.isWellFormed (p : Path) : Bool :=
  match p.tokens with
  | [] => false
  | t :: ts => t.isWellFormed && followWellFormed ts

def Literal.integers : Literal → List Int
  | .int n => [n]
  | _ => []

def Slice.integers (s : Slice) : List Int := s.first :: (s.last.toList ++ [(s.step : Int)])

mutual

def Selector.integers : Selector → List Int
  | .child (.index i) => [i]
  | .slice bounds => bounds.integers
  | .filter _ head tail _ literal => head.integers ++ integersAll tail ++ literal.integers
  | _ => []

def Token.integers : Token → List Int
  | .select s => s.integers
  | .union first others => first.integers ++ integersOthers others
  | _ => []

def integersAll : List Token → List Int
  | [] => []
  | t :: ts => t.integers ++ integersAll ts

def integersOthers : List Selector → List Int
  | [] => []
  | s :: ss => s.integers ++ integersOthers ss

end

/-- The keys, the bounds and steps of slices, and the literals that are integers, at any depth. -/
def Path.integers (p : Path) : List Int := integersAll p.tokens

/-- The integer is short enough to be read. -/
def ShortInteger (i : Int) : Prop := (decimalDigits i.natAbs).length ≤ Parse.digitLimit

instance (i : Int) : Decidable (ShortInteger i) := inferInstanceAs (Decidable (_ ≤ _))

mutual

/-- The selector with the texts forgotten that the paths of its filters were given as. -/
def Selector.withoutSources : Selector → Selector
  | .filter _ head tail op literal => .filter none head.withoutSources (withoutSourcesAll tail) op literal
  | s => s

def Token.withoutSources : Token → Token
  | .select s => .select s.withoutSources
  | .union first others => .union first.withoutSources (withoutSourcesOthers others)
  | t => t

def withoutSourcesAll : List Token → List Token
  | [] => []
  | t :: ts => t.withoutSources :: withoutSourcesAll ts

def withoutSourcesOthers : List Selector → List Selector
  | [] => []
  | s :: ss => s.withoutSources :: withoutSourcesOthers ss

end

/-! ## Derivations of well-formed paths -/

/-- The numeral of a short integer. -/
def IntegerNumeral.ofInt (i : Int) (h : ShortInteger i) : IntegerNumeral :=
  ⟨.ofInt i, rfl, by
    show (List.map digitPoint _).length ≤ _
    rw [List.length_map]
    exact h⟩

theorem IntegerNumeral.value_ofInt (i : Int) (h : ShortInteger i) : (ofInt i h).value = i := Numeral.integer_ofInt i

theorem Literal.exists_tree (l : Literal) (h : ∀ i ∈ l.integers, ShortInteger i) :
    ∃ t : LiteralTree, t.lexeme = l.lexeme ∧ t.literal = l := by
  cases l with
  | null => exact ⟨.null, rfl, rfl⟩
  | bool b =>
    refine ⟨.bool b, ?_, rfl⟩
    cases b with
    | true => rfl
    | false => rfl
  | int n =>
    have hn := h n (List.mem_cons_self ..)
    exact ⟨.integer (.ofInt n hn), rfl, congrArg Literal.int (IntegerNumeral.value_ofInt n hn)⟩
  | float x =>
    have hx : (Binary64.ofNumeral x.numeral).finite? = some x := by rw [x.ofNumeral_numeral]; rfl
    refine ⟨.float x.numeral x.isInteger_numeral (by rw [hx]; rfl), rfl, ?_⟩
    simp only [LiteralTree.literal, hx, Option.get_some]
  | string s => exact ⟨.string s, rfl, rfl⟩

theorem Slice.exists_tree (s : Slice) (h : ∀ i ∈ s.integers, ShortInteger i) :
    ∃ t : SelectorTree, t.lexemes = s.spelling ∧ t.selector = .slice s := by
  obtain ⟨first, last, step, step_pos⟩ := s
  have hfirst : ShortInteger first := h first (List.mem_cons_self ..)
  have hstep : ShortInteger step := h step (by simp [Slice.integers])
  obtain ⟨last', hlast', hvalue⟩ : ∃ last' : Option IntegerNumeral,
      boundLexemes last' = (last.map fun i => Lexeme.number (.ofInt i)).toList ∧
        last'.map IntegerNumeral.value = last := by
    cases last with
    | none => exact ⟨none, rfl, rfl⟩
    | some i =>
      have hi : ShortInteger i := h i (by simp [Slice.integers])
      exact ⟨some (.ofInt i hi), rfl, congrArg some (IntegerNumeral.value_ofInt i hi)⟩
  by_cases hone : step = 1
  · subst hone
    refine ⟨.slice (some (.ofInt first hfirst)) last' none, ?_, ?_⟩
    · rw [SelectorTree.lexemes, hlast', Slice.spelling, if_pos rfl]
      rfl
    · simp [SelectorTree.selector, sliceOf, hvalue, IntegerNumeral.value_ofInt]
  · have hpos : 0 < (IntegerNumeral.ofInt step hstep).value := by
      rw [IntegerNumeral.value_ofInt]
      omega
    refine ⟨.slice (some (.ofInt first hfirst)) last' (some (some ⟨.ofInt step hstep, hpos⟩)), ?_, ?_⟩
    · rw [SelectorTree.lexemes, hlast', Slice.spelling, if_neg hone]
      rfl
    · simp [SelectorTree.selector, sliceOf, hvalue, IntegerNumeral.value_ofInt]

/-- A path is as derivable as its first token and the tokens behind it. -/
theorem exists_pathTree {t : Token} {ts : List Token}
    (ht : t.isAnchor = false → ∃ s : SegmentTree, s.lexemes = t.spelling ∧ s.token = t.withoutSources)
    (hts : ∃ ss, segmentLexemes ss = spellingAll ts ∧ segmentTokens ss = withoutSourcesAll ts) :
    ∃ p : PathTree, p.lexemes = t.spelling ++ spellingAll ts ∧
      p.tokens = (t.withoutSources, withoutSourcesAll ts) := by
  obtain ⟨ss, hss, htokens⟩ := hts
  cases h : t.isAnchor with
  | true =>
    cases t with
    | root => exact ⟨.opened .root ss, congrArg (Lexeme.root :: ·) hss, congrArg (Prod.mk Token.root) htokens⟩
    | current => exact ⟨.opened .current ss, congrArg (Lexeme.current :: ·) hss, congrArg (Prod.mk Token.current) htokens⟩
    | _ => cases h
  | false =>
    obtain ⟨s, hs, htoken⟩ := ht h
    exact ⟨.bare s ss, by rw [PathTree.lexemes, hs, hss], by rw [PathTree.tokens, htoken, htokens]⟩

/-- A name that can stand bare is spelled as one. -/
theorem nameLexeme?_cases (s : Text) :
    (∃ c t, s = c :: t ∧ nameLexeme? s = some (.name c t)) ∨ nameLexeme? s = none := by
  rcases nameLexeme?_eq s with ⟨_, h⟩ | ⟨_, h⟩
  · exact Or.inl h
  · exact Or.inr h

mutual

theorem Selector.exists_tree : ∀ s : Selector, s.isWellFormed = true → (∀ i ∈ s.integers, ShortInteger i) →
    ∃ t : SelectorTree, t.lexemes = s.spelling ∧ t.selector = s.withoutSources
  | .child (.name s), _, _ => ⟨.key s, rfl, rfl⟩
  | .child (.index i), _, h => by
    have hi := h i (List.mem_cons_self ..)
    refine ⟨.index (.ofInt i hi), rfl, ?_⟩
    rw [SelectorTree.selector, IntegerNumeral.value_ofInt]
    rfl
  | .slice bounds, _, h => bounds.exists_tree h
  | .wildcard, _, _ => ⟨.star, rfl, rfl⟩
  | .filter source head tail op literal, hwf, h => by
    obtain ⟨hhead, htail⟩ := Bool.and_eq_true_iff.1 hwf
    rw [Selector.integers, List.forall_mem_append, List.forall_mem_append] at h
    obtain ⟨path, hpath, htokens⟩ := exists_pathTree (fun ha => Token.exists_tree head ha hhead h.1.1)
      (exists_segments tail htail h.1.2)
    obtain ⟨l, hl, hliteral⟩ := literal.exists_tree h.2
    refine ⟨.filter path op l, ?_, ?_⟩
    · rw [SelectorTree.lexemes, Selector.spelling, hpath, hl]
    · rw [SelectorTree.selector, Selector.withoutSources, htokens, hliteral]

theorem Token.exists_tree : ∀ t : Token, t.isAnchor = false → t.isWellFormed = true →
    (∀ i ∈ t.integers, ShortInteger i) →
    ∃ s : SegmentTree, s.lexemes = t.spelling ∧ s.token = t.withoutSources
  | .root, ha, _, _ => by cases ha
  | .current, ha, _, _ => by cases ha
  | .select s, _, hwf, h => by
    obtain ⟨tree, htree, hselector⟩ := Selector.exists_tree s hwf h
    rcases Token.select_cases s with ⟨key, rfl⟩ | ⟨_, hspelling⟩
    · rw [Token.spelling]
      rcases nameLexeme?_cases key with ⟨c, name, rfl, hx⟩ | hx
      · exact ⟨.name c name, by rw [hx]; rfl, rfl⟩
      · exact ⟨.brackets (.key key) [], by rw [hx]; rfl, rfl⟩
    · refine ⟨.brackets tree [], ?_, ?_⟩
      · rw [hspelling, SegmentTree.lexemes, htree, selectorLexemes, List.append_nil]
      · rw [SegmentTree.token, hselector]
        rfl
  | .descend key key_ne, _, _, _ => by
    rw [Token.spelling]
    rcases nameLexeme?_cases key with ⟨c, name, rfl, hx⟩ | hx
    · exact ⟨.descent c name, by rw [hx]; rfl, rfl⟩
    · exact ⟨.quotedDescent key key_ne, by rw [hx]; rfl, rfl⟩
  | .union first [], _, hwf, _ => by cases hwf
  | .union first (s :: others), _, hwf, h => by
    obtain ⟨hfirst, hothers⟩ := Bool.and_eq_true_iff.1 hwf
    rw [Token.integers, List.forall_mem_append] at h
    obtain ⟨tree, htree, hselector⟩ := Selector.exists_tree first hfirst h.1
    obtain ⟨trees, htrees, hselectors⟩ := exists_selectors (s :: others) hothers h.2
    refine ⟨.brackets tree trees, ?_, ?_⟩
    · rw [SegmentTree.lexemes, Token.spelling, htree, htrees]
    · rw [SegmentTree.token, hselector, hselectors]
      rfl

theorem exists_segments : ∀ ts : List Token, followWellFormed ts = true → (∀ i ∈ integersAll ts, ShortInteger i) →
    ∃ ss, segmentLexemes ss = spellingAll ts ∧ segmentTokens ss = withoutSourcesAll ts
  | [], _, _ => ⟨[], rfl, rfl⟩
  | t :: ts, hwf, h => by
    simp only [followWellFormed, Bool.and_eq_true, Bool.not_eq_true'] at hwf
    rw [integersAll, List.forall_mem_append] at h
    obtain ⟨s, hs, htoken⟩ := Token.exists_tree t hwf.1.1 hwf.1.2 h.1
    obtain ⟨ss, hss, htokens⟩ := exists_segments ts hwf.2 h.2
    exact ⟨s :: ss, by rw [segmentLexemes, spellingAll, hs, hss],
      by rw [segmentTokens, withoutSourcesAll, htoken, htokens]⟩

theorem exists_selectors : ∀ ss : List Selector, othersWellFormed ss = true →
    (∀ i ∈ integersOthers ss, ShortInteger i) →
    ∃ ts, selectorLexemes ts = spellingOthers ss ∧ selectorsOf ts = withoutSourcesOthers ss
  | [], _, _ => ⟨[], rfl, rfl⟩
  | s :: ss, hwf, h => by
    obtain ⟨hs, hss⟩ := Bool.and_eq_true_iff.1 hwf
    rw [integersOthers, List.forall_mem_append] at h
    obtain ⟨t, ht, hselector⟩ := Selector.exists_tree s hs h.1
    obtain ⟨ts, hts, hselectors⟩ := exists_selectors ss hss h.2
    exact ⟨t :: ts, by rw [selectorLexemes, spellingOthers, ht, hts],
      by rw [selectorsOf, withoutSourcesOthers, hselector, hselectors]⟩

end

/-- A well-formed path with short integers has a derivation. -/
theorem Path.exists_tree {p : Path} (hwf : p.isWellFormed = true) (h : ∀ i ∈ p.integers, ShortInteger i) :
    ∃ t : PathTree, t.lexemes = spellingAll p.tokens ∧ t.tokens.1 :: t.tokens.2 = withoutSourcesAll p.tokens := by
  obtain ⟨tokens, source⟩ := p
  cases tokens with
  | nil => cases hwf
  | cons t ts =>
    obtain ⟨ht, hts⟩ := Bool.and_eq_true_iff.1 hwf
    obtain ⟨hi, his⟩ := List.forall_mem_append.1 h
    obtain ⟨tree, htree, htokens⟩ := exists_pathTree (fun ha => Token.exists_tree t ha ht hi)
      (exists_segments ts hts his)
    exact ⟨tree, htree, by rw [htokens]; rfl⟩

/-! ## What derivations stand for -/

/-- A selector as it is read. -/
structure Selector.IsRead (s : Selector) : Prop where
  wellFormed : s.isWellFormed = true
  short : ∀ i ∈ s.integers, ShortInteger i
  sourceless : s.withoutSources = s

/-- A token as it is read. -/
structure Token.IsRead (t : Token) : Prop where
  wellFormed : t.isWellFormed = true
  short : ∀ i ∈ t.integers, ShortInteger i
  sourceless : t.withoutSources = t

/-- Tokens behind the first one as they are read. -/
structure FollowRead (ts : List Token) : Prop where
  wellFormed : followWellFormed ts = true
  short : ∀ i ∈ integersAll ts, ShortInteger i
  sourceless : withoutSourcesAll ts = ts

/-- Further alternatives as they are read. -/
structure OthersRead (ss : List Selector) : Prop where
  wellFormed : othersWellFormed ss = true
  short : ∀ i ∈ integersOthers ss, ShortInteger i
  sourceless : withoutSourcesOthers ss = ss

theorem shortInteger_nil : ∀ i ∈ ([] : List Int), ShortInteger i := fun _ h => by cases h

theorem Opening.isRead (o : Opening) : o.token.IsRead := by
  cases o with
  | root => exact ⟨rfl, shortInteger_nil, rfl⟩
  | current => exact ⟨rfl, shortInteger_nil, rfl⟩
  | name c s => exact ⟨rfl, shortInteger_nil, rfl⟩

theorem IntegerNumeral.shortInteger (n : IntegerNumeral) : ShortInteger n.value := by
  have habs : n.value.natAbs = n.numeral.whole.digitsValue := by
    unfold IntegerNumeral.value Numeral.integer
    split <;> omega
  unfold ShortInteger
  rw [habs]
  exact length_decimalDigits_digitsValue (by decide) n.short

theorem LiteralTree.shortInteger (t : LiteralTree) : ∀ i ∈ t.literal.integers, ShortInteger i := by
  intro i hi
  cases t with
  | integer n =>
    cases List.mem_singleton.1 hi
    exact n.shortInteger
  | _ => cases hi

theorem shortInteger_of_lt {i : Int} (h : i.natAbs < 10) : ShortInteger i := by
  have hone : (decimalDigits i.natAbs).length ≤ 1 := (length_decimalDigits_le_iff (by omega)).2 (by omega)
  exact Nat.le_trans hone (by decide)

/-- The bounds of a slice were read or filled in. -/
theorem shortInteger_sliceOf (first last : Option IntegerNumeral) (step : Option (Option PositiveNumeral)) :
    ∀ i ∈ (sliceOf first last step).integers, ShortInteger i := by
  have hfirst : ShortInteger ((first.map IntegerNumeral.value).getD 0) := by
    cases first with
    | none => exact shortInteger_of_lt (by decide)
    | some n => exact n.shortInteger
  have hlast : ∀ i ∈ (last.map IntegerNumeral.value).toList, ShortInteger i := by
    intro i hi
    cases last with
    | none => cases hi
    | some n =>
      cases List.mem_singleton.1 hi
      exact n.shortInteger
  have hone : ShortInteger ((1 : Nat) : Int) := shortInteger_of_lt (by decide)
  have hall : ∀ k : Nat, ShortInteger k → ∀ i ∈ (first.map IntegerNumeral.value).getD 0 ::
      ((last.map IntegerNumeral.value).toList ++ [(k : Int)]), ShortInteger i := by
    intro k hk i hi
    rcases List.mem_cons.1 hi with rfl | hi
    · exact hfirst
    · rcases List.mem_append.1 hi with hi | hi
      · exact hlast i hi
      · cases List.mem_singleton.1 hi
        exact hk
  match step with
  | none => exact hall 1 hone
  | some none => exact hall 1 hone
  | some (some n) =>
    refine hall n.value.toNat ?_
    rw [Int.toNat_of_nonneg (Int.le_of_lt n.pos)]
    exact n.shortInteger

theorem SegmentTree.not_isAnchor (s : SegmentTree) : s.token.isAnchor = false := by
  cases s with
  | brackets first others => rw [SegmentTree.token]; cases selectorsOf others <;> rfl
  | _ => rfl

mutual

theorem PathTree.isRead : ∀ t : PathTree, t.tokens.1.IsRead ∧ FollowRead t.tokens.2
  | .opened o ss => ⟨o.isRead, segments_isRead ss⟩
  | .bare s ss => ⟨SegmentTree.isRead s, segments_isRead ss⟩

theorem SegmentTree.isRead : ∀ s : SegmentTree, s.token.IsRead
  | .star => ⟨rfl, shortInteger_nil, rfl⟩
  | .name _ _ => ⟨rfl, shortInteger_nil, rfl⟩
  | .descent _ _ => ⟨rfl, shortInteger_nil, rfl⟩
  | .quotedDescent _ _ => ⟨rfl, shortInteger_nil, rfl⟩
  | .brackets first others => by
    have hfirst := SelectorTree.isRead first
    have hothers := selectors_isRead others
    rw [SegmentTree.token]
    cases hss : selectorsOf others with
    | nil => exact ⟨hfirst.wellFormed, hfirst.short, congrArg Token.select hfirst.sourceless⟩
    | cons s ss =>
      rw [hss] at hothers
      refine ⟨?_, ?_, ?_⟩
      · exact Bool.and_eq_true_iff.2 ⟨hfirst.wellFormed, hothers.wellFormed⟩
      · exact List.forall_mem_append.2 ⟨hfirst.short, hothers.short⟩
      · rw [Token.ofSelectors, Token.withoutSources, hfirst.sourceless, hothers.sourceless]

theorem segments_isRead : ∀ ss : List SegmentTree, FollowRead (segmentTokens ss)
  | [] => ⟨rfl, shortInteger_nil, rfl⟩
  | s :: ss => by
    have hs := SegmentTree.isRead s
    have hss := segments_isRead ss
    rw [segmentTokens]
    refine ⟨?_, ?_, ?_⟩
    · rw [followWellFormed, s.not_isAnchor, hs.wellFormed, hss.wellFormed]
      rfl
    · exact List.forall_mem_append.2 ⟨hs.short, hss.short⟩
    · rw [withoutSourcesAll, hs.sourceless, hss.sourceless]

theorem SelectorTree.isRead : ∀ s : SelectorTree, s.selector.IsRead
  | .star => ⟨rfl, shortInteger_nil, rfl⟩
  | .key _ => ⟨rfl, shortInteger_nil, rfl⟩
  | .index n => by
    refine ⟨rfl, ?_, rfl⟩
    intro i hi
    cases List.mem_singleton.1 hi
    exact n.shortInteger
  | .slice first last step => ⟨rfl, shortInteger_sliceOf first last step, rfl⟩
  | .filter path op literal => by
    obtain ⟨hhead, htail⟩ := PathTree.isRead path
    rw [SelectorTree.selector]
    refine ⟨?_, ?_, ?_⟩
    · exact Bool.and_eq_true_iff.2 ⟨hhead.wellFormed, htail.wellFormed⟩
    · exact List.forall_mem_append.2 ⟨List.forall_mem_append.2 ⟨hhead.short, htail.short⟩, literal.shortInteger⟩
    · rw [Selector.withoutSources, hhead.sourceless, htail.sourceless]

theorem selectors_isRead : ∀ ss : List SelectorTree, OthersRead (selectorsOf ss)
  | [] => ⟨rfl, shortInteger_nil, rfl⟩
  | s :: ss => by
    have hs := SelectorTree.isRead s
    have hss := selectors_isRead ss
    rw [selectorsOf]
    refine ⟨?_, ?_, ?_⟩
    · exact Bool.and_eq_true_iff.2 ⟨hs.wellFormed, hss.wellFormed⟩
    · exact List.forall_mem_append.2 ⟨hs.short, hss.short⟩
    · rw [withoutSourcesOthers, hs.sourceless, hss.sourceless]

end

/-! ## Equality of paths -/

theorem Token.isAnchor_of_same {t u : Token} (h : t.same u = true) : t.isAnchor = u.isAnchor := by
  cases t with
  | root => rw [Token.eq_of_same_root h]
  | current => rw [Token.eq_of_same_current h]
  | descend _ _ => rw [Token.eq_of_same_descend h]
  | select _ =>
    obtain ⟨_, rfl, _⟩ := Token.exists_of_same_select h
    rfl
  | union _ _ =>
    obtain ⟨_, _, rfl, _⟩ := Token.exists_of_same_union h
    rfl

theorem isEmpty_of_same {ss ss' : List Selector} (h : sameSelectors ss ss' = true) : ss.isEmpty = ss'.isEmpty := by
  cases ss with
  | nil => rw [eq_of_sameSelectors_nil h]
  | cons s ss =>
    obtain ⟨_, _, rfl, _⟩ := exists_of_sameSelectors_cons h
    rfl

mutual

theorem Selector.isWellFormed_of_same : ∀ (s s' : Selector), s.same s' = true → s.isWellFormed = s'.isWellFormed
  | .child _, s', h => by rw [Selector.eq_of_same_child h]
  | .slice _, s', h => by rw [Selector.eq_of_same_slice h]
  | .wildcard, s', h => by rw [Selector.eq_of_same_wildcard h]
  | .filter _ head tail _ _, s', h => by
    obtain ⟨_, head', tail', _, rfl, hhead, htail, _⟩ := Selector.exists_of_same_filter h
    rw [Selector.isWellFormed, Selector.isWellFormed, Token.isWellFormed_of_same head head' hhead,
      followWellFormed_of_same tail tail' htail]

theorem Token.isWellFormed_of_same : ∀ (t t' : Token), t.same t' = true → t.isWellFormed = t'.isWellFormed
  | .root, t', h => by rw [Token.eq_of_same_root h]
  | .current, t', h => by rw [Token.eq_of_same_current h]
  | .descend _ _, t', h => by rw [Token.eq_of_same_descend h]
  | .select s, t', h => by
    obtain ⟨s', rfl, hs⟩ := Token.exists_of_same_select h
    exact Selector.isWellFormed_of_same s s' hs
  | .union first others, t', h => by
    obtain ⟨first', others', rfl, hfirst, hothers⟩ := Token.exists_of_same_union h
    rw [Token.isWellFormed, Token.isWellFormed, isEmpty_of_same hothers,
      Selector.isWellFormed_of_same first first' hfirst, othersWellFormed_of_same others others' hothers]

theorem followWellFormed_of_same : ∀ (ts ts' : List Token), sameTokens ts ts' = true →
    followWellFormed ts = followWellFormed ts'
  | [], ts', h => by rw [eq_of_sameTokens_nil h]
  | t :: ts, ts', h => by
    obtain ⟨t', ts', rfl, ht, hts⟩ := exists_of_sameTokens_cons h
    rw [followWellFormed, followWellFormed, Token.isAnchor_of_same ht, Token.isWellFormed_of_same t t' ht,
      followWellFormed_of_same ts ts' hts]

theorem othersWellFormed_of_same : ∀ (ss ss' : List Selector), sameSelectors ss ss' = true →
    othersWellFormed ss = othersWellFormed ss'
  | [], ss', h => by rw [eq_of_sameSelectors_nil h]
  | s :: ss, ss', h => by
    obtain ⟨s', ss', rfl, hs, hss⟩ := exists_of_sameSelectors_cons h
    rw [othersWellFormed, othersWellFormed, Selector.isWellFormed_of_same s s' hs,
      othersWellFormed_of_same ss ss' hss]

end

/-- Equal paths are well-formed alike. -/
theorem Path.isWellFormed_of_same {p q : Path} (h : p.same q = true) : p.isWellFormed = q.isWellFormed := by
  obtain ⟨tokens, source⟩ := p
  obtain ⟨tokens', source'⟩ := q
  unfold Path.same at h
  cases tokens with
  | nil =>
    obtain rfl : tokens' = [] := eq_of_sameTokens_nil h
    rfl
  | cons t ts =>
    obtain ⟨t', ts', rfl, ht, hts⟩ : ∃ t' ts', tokens' = t' :: ts' ∧ _ := exists_of_sameTokens_cons h
    show (t.isWellFormed && followWellFormed ts) = (t'.isWellFormed && followWellFormed ts')
    rw [Token.isWellFormed_of_same t t' ht, followWellFormed_of_same ts ts' hts]

end TreePath
