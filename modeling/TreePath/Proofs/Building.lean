import TreePath.Proofs.Calls
import TreePath.Proofs.RoundTrip
import TreePath.Proofs.Spacing

/-!
# Building and compiling

Calls on a builder and the text that they stand for lead to one path, up to one thing: a union of a single key is read
from its text as the key alone (`compile_callsText`). The text of a call is read as a segment wherever it stands, and
the texts of calls one behind the other as the segments one behind the other (`Call.reads`, `AddsAll.reads`).
-/

namespace TreePath

/-! ## Unions of one alternative -/

mutual

/-- The selector with each union of one alternative replaced by the alternative, and without sources. -/
def Selector.collapsed : Selector → Selector
  | .filter _ head tail op literal => .filter none head.collapsed (collapsedAll tail) op literal
  | s => s

def Token.collapsed : Token → Token
  | .select s => .select s.collapsed
  | .union first others => .ofSelectors first.collapsed (collapsedOthers others)
  | t => t

def collapsedAll : List Token → List Token
  | [] => []
  | t :: ts => t.collapsed :: collapsedAll ts

def collapsedOthers : List Selector → List Selector
  | [] => []
  | s :: ss => s.collapsed :: collapsedOthers ss

end

mutual

theorem Selector.collapsed_of_isWellFormed : ∀ s : Selector, s.isWellFormed = true → s.collapsed = s.withoutSources
  | .child _, _ => rfl
  | .slice _, _ => rfl
  | .wildcard, _ => rfl
  | .filter _ head tail _ _, h => by
    obtain ⟨hhead, htail⟩ := Bool.and_eq_true_iff.1 h
    rw [Selector.collapsed, Selector.withoutSources, Token.collapsed_of_isWellFormed head hhead,
      collapsedAll_of_followWellFormed tail htail]

theorem Token.collapsed_of_isWellFormed : ∀ t : Token, t.isWellFormed = true → t.collapsed = t.withoutSources
  | .root, _ => rfl
  | .current, _ => rfl
  | .descend _ _, _ => rfl
  | .select s, h => by
    rw [Token.collapsed, Token.withoutSources, Selector.collapsed_of_isWellFormed s h]
  | .union _ [], h => by cases h
  | .union first (s :: others), h => by
    obtain ⟨hfirst, hothers⟩ := Bool.and_eq_true_iff.1 h
    rw [Token.collapsed, Token.withoutSources, Selector.collapsed_of_isWellFormed first hfirst,
      collapsedOthers_of_othersWellFormed (s :: others) hothers]
    rfl

theorem collapsedAll_of_followWellFormed : ∀ ts : List Token, followWellFormed ts = true →
    collapsedAll ts = withoutSourcesAll ts
  | [], _ => rfl
  | t :: ts, h => by
    simp only [followWellFormed, Bool.and_eq_true] at h
    rw [collapsedAll, withoutSourcesAll, Token.collapsed_of_isWellFormed t h.1.2,
      collapsedAll_of_followWellFormed ts h.2]

theorem collapsedOthers_of_othersWellFormed : ∀ ss : List Selector, othersWellFormed ss = true →
    collapsedOthers ss = withoutSourcesOthers ss
  | [], _ => rfl
  | s :: ss, h => by
    obtain ⟨hs, hss⟩ := Bool.and_eq_true_iff.1 h
    rw [collapsedOthers, withoutSourcesOthers, Selector.collapsed_of_isWellFormed s hs,
      collapsedOthers_of_othersWellFormed ss hss]

end

mutual

/-- Sources do not count. -/
theorem Selector.same_withoutSources : ∀ s : Selector, s.same s.withoutSources = true
  | .child key => Selector.same_self (.child key)
  | .slice bounds => Selector.same_self (.slice bounds)
  | .wildcard => Selector.same_self .wildcard
  | .filter _ head tail op literal => by
    rw [Selector.withoutSources, Selector.same, Token.same_withoutSources head, sameTokens_withoutSources tail,
      literal.same_self, beq_self_eq_true]
    rfl

theorem Token.same_withoutSources : ∀ t : Token, t.same t.withoutSources = true
  | .root => Token.same_self .root
  | .current => Token.same_self .current
  | .descend key h => Token.same_self (.descend key h)
  | .select s => by rw [Token.withoutSources, Token.same, Selector.same_withoutSources s]
  | .union first others => by
    rw [Token.withoutSources, Token.same, Selector.same_withoutSources first, sameSelectors_withoutSources others]
    rfl

theorem sameTokens_withoutSources : ∀ ts : List Token, sameTokens ts (withoutSourcesAll ts) = true
  | [] => by rw [withoutSourcesAll, sameTokens]
  | t :: ts => by
    rw [withoutSourcesAll, sameTokens, Token.same_withoutSources t, sameTokens_withoutSources ts]
    rfl

theorem sameSelectors_withoutSources : ∀ ss : List Selector, sameSelectors ss (withoutSourcesOthers ss) = true
  | [] => by rw [withoutSourcesOthers, sameSelectors]
  | s :: ss => by
    rw [withoutSourcesOthers, sameSelectors, Selector.same_withoutSources s, sameSelectors_withoutSources ss]
    rfl

end

/-- A path that is well-formed is equal to what is read for it. -/
theorem sameTokens_collapsedAll {t : Token} {ts : List Token} (h : (t.isWellFormed && followWellFormed ts) = true) :
    sameTokens (t :: ts) (t.collapsed :: collapsedAll ts) = true := by
  obtain ⟨ht, hts⟩ := Bool.and_eq_true_iff.1 h
  rw [Token.collapsed_of_isWellFormed t ht, collapsedAll_of_followWellFormed ts hts]
  exact sameTokens_withoutSources (t :: ts)

theorem othersWellFormed_child (keys : List Key) : othersWellFormed (keys.map .child) = true := by
  induction keys with
  | nil => rfl
  | cons k keys ih =>
    rw [List.map_cons, othersWellFormed, ih]
    rfl

theorem collapsedOthers_child (keys : List Key) :
    collapsedOthers (keys.map .child) = keys.map .child := by
  induction keys with
  | nil => rfl
  | cons k keys ih =>
    rw [List.map_cons, collapsedOthers, ih]
    rfl

/-- What is read has no unions of one alternative and no sources. -/
theorem collapsedAll_of_compile {s : Text} {p : Path} (h : Path.compile s = .ok p) :
    collapsedAll p.tokens = p.tokens := by
  obtain ⟨hwf, _, hsources⟩ := isRead_of_compile h
  obtain ⟨tokens, source⟩ := p
  cases tokens with
  | nil => rfl
  | cons t ts =>
    obtain ⟨ht, hts⟩ := Bool.and_eq_true_iff.1 hwf
    rw [collapsedAll, Token.collapsed_of_isWellFormed t ht, collapsedAll_of_followWellFormed ts hts]
    exact hsources

/-! ## Texts that are read -/

/-- Wherever the text stands, its lexemes are `ls`. -/
def Spells (s : Text) (ls : List Lexeme) : Prop :=
  ∀ (r : Text) (xs : List Lexeme), Lexes r xs → Lexes (s ++ r) (ls ++ xs)

theorem Spells.append {s s' : Text} {ls ls' : List Lexeme} (h : Spells s ls) (h' : Spells s' ls') :
    Spells (s ++ s') (ls ++ ls') := by
  intro r xs hr
  rw [List.append_assoc, List.append_assoc]
  exact h _ _ (h' r xs hr)

/-- Wherever the text stands as an entry between brackets, it is read as the selector. -/
def ReadsEntry (s : Text) (x : Selector) : Prop :=
  ∃ tree : SelectorTree, tree.selector = x ∧
    ∀ (r : Text) (xs : List Lexeme), EndsEntry r → Lexes r xs → Lexes (s ++ r) (tree.lexemes ++ xs)

def ReadsSegment (s : Text) (t : Token) : Prop := ∃ tree : SegmentTree, tree.token = t ∧ Spells s tree.lexemes

def ReadsSegments (s : Text) (ts : List Token) : Prop :=
  ∃ trees : List SegmentTree, segmentTokens trees = ts ∧ Spells s (segmentLexemes trees)

def ReadsPath (s : Text) (head : Token) (tail : List Token) : Prop :=
  ∃ tree : PathTree, tree.tokens = (head, tail) ∧ Spells s tree.lexemes

/-- In front of a space, the text is read as the path. -/
def ReadsSubpath (s : Text) (head : Token) (tail : List Token) : Prop :=
  ∃ tree : PathTree, tree.tokens = (head, tail) ∧ Spells (s ++ chars [' ']) tree.lexemes

section

variable {s s' : Text} {x : Selector} {t head : Token} {ts tail : List Token}

theorem ReadsPath.compile (h : ReadsPath s head tail) : Path.compile s = .ok ⟨head :: tail, some s⟩ := by
  obtain ⟨tree, htokens, hlexes⟩ := h
  obtain ⟨ls, hlex, hls⟩ := hlexes [] [] Lexes.nil 0
  rw [List.append_nil] at hlex hls
  rw [compile_of_derivation hlex hls.symm, htokens]

theorem ReadsPath.subpath (h : ReadsPath s head tail) : ReadsSubpath s head tail := by
  obtain ⟨tree, htokens, hlexes⟩ := h
  refine ⟨tree, htokens, fun r xs hr => ?_⟩
  rw [List.append_assoc]
  exact hlexes _ xs (Lexes.blank (by decide) hr)

/-- What compiles is read as the same path in front of a space. -/
theorem readsSubpath_of_compile {source : Option Text} (h : Path.compile s = .ok ⟨head :: tail, source⟩) :
    ReadsSubpath s head tail := by
  obtain ⟨ls, tree, hlex, htree, hp⟩ := derivation_of_compile h
  cases hp
  refine ⟨tree, rfl, fun r xs hr => ?_⟩
  rw [htree, List.append_assoc]
  exact Lexes.append_space hlex hr

theorem readsSegments_nil : ReadsSegments [] [] := ⟨[], rfl, fun _ _ hr => hr⟩

theorem ReadsSegment.cons (h : ReadsSegment s t) (hs : ReadsSegments s' ts) : ReadsSegments (s ++ s') (t :: ts) := by
  obtain ⟨tree, rfl, hlexes⟩ := h
  obtain ⟨trees, rfl, hrest⟩ := hs
  exact ⟨tree :: trees, rfl, hlexes.append hrest⟩

theorem ReadsSegments.opened {c : CodePoint} {o : Opening} (ho : Lexeme.symbols.lookup c = some o.lexeme)
    (h : ReadsSegments s ts) : ReadsPath (c :: s) o.token ts := by
  obtain ⟨trees, rfl, hlexes⟩ := h
  exact ⟨.opened o trees, rfl, fun r xs hr => Lexes.symbol ho (hlexes r xs hr)⟩

theorem ReadsSegment.path (h : ReadsSegment s t) (hs : ReadsSegments s' ts) : ReadsPath (s ++ s') t ts := by
  obtain ⟨tree, rfl, hlexes⟩ := h
  obtain ⟨trees, rfl, hrest⟩ := hs
  exact ⟨.bare tree trees, rfl, hlexes.append hrest⟩

theorem ReadsEntry.bracketed (h : ReadsEntry s x) : ReadsSegment (bracketed s) (.select x) := by
  obtain ⟨tree, rfl, hlexes⟩ := h
  refine ⟨.brackets tree [], rfl, fun r xs hr => ?_⟩
  have hclose : Lexes (chars [']'] ++ r) (.rightBracket :: xs) := Lexes.symbol (by decide) hr
  have hopen : Lexes (chars ['['] ++ _) (.leftBracket :: _) :=
    Lexes.symbol (by decide) (hlexes _ _ (Or.inr rfl) hclose)
  simp only [TreePath.bracketed, SegmentTree.lexemes, selectorLexemes, List.append_assoc, List.cons_append,
    List.nil_append, List.append_nil]
  exact hopen

/-- A written selector is read. -/
theorem readsEntry_text (x : Selector) (hwf : x.isWellFormed = true) (h : ∀ i ∈ x.integers, ShortInteger i) :
    ReadsEntry x.text x.withoutSources := by
  obtain ⟨tree, hlexemes, hselector⟩ := x.exists_tree hwf h
  refine ⟨tree, hselector, fun r xs hend hr => ?_⟩
  rw [hlexemes]
  exact x.lexes_text hend hr

/-- A written union is read, as the alternative alone if there is one only. -/
theorem readsSegment_union (first : Key) (others : List Key)
    (h : ∀ i ∈ (Token.union (.child first) (others.map .child)).integers, ShortInteger i) :
    ReadsSegment (bracketed (first.text ++ textOthers (others.map .child)))
      (.ofSelectors (.child first) (others.map .child)) := by
  rw [Token.integers, List.forall_mem_append] at h
  have hwf := othersWellFormed_child others
  obtain ⟨tree, hlexemes, hselector⟩ := (Selector.child first).exists_tree rfl h.1
  obtain ⟨trees, htrees, hselectors⟩ := exists_selectors (others.map .child) hwf h.2
  refine ⟨.brackets tree trees, ?_, fun r xs hr => ?_⟩
  · rw [SegmentTree.token, hselector, hselectors, ← collapsedOthers_of_othersWellFormed _ hwf, collapsedOthers_child]
    rfl
  · have hothers := lexes_textOthers (others.map .child) hr
    have hfirst := (Selector.child first).lexes_text (endsEntry_textOthers _ r) hothers
    have hopen : Lexes (chars ['['] ++ _) (.leftBracket :: _) := Lexes.symbol (by decide) hfirst
    simp only [TreePath.bracketed, SegmentTree.lexemes, hlexemes, htrees, List.append_assoc, List.cons_append,
      List.nil_append]
    exact hopen

/-- A slice may be written with its step, whatever the step. -/
theorem readsEntry_slice (bounds : Slice) (h : ∀ i ∈ bounds.integers, ShortInteger i) :
    ReadsEntry (Text.ofInt bounds.first ++ chars [':'] ++ bounds.last.elim [] Text.ofInt ++ chars [':'] ++
      Text.ofInt bounds.step) (.slice bounds) := by
  obtain ⟨first, last, step, step_pos⟩ := bounds
  have hfirst : ShortInteger first := h first (List.mem_cons_self ..)
  have hstep : ShortInteger step := h step (by simp [Slice.integers])
  have hpos : 0 < (IntegerNumeral.ofInt step hstep).value := by
    rw [IntegerNumeral.value_ofInt]
    omega
  obtain ⟨last', hvalue, hlast⟩ : ∃ last' : Option IntegerNumeral, last'.map IntegerNumeral.value = last ∧
      ∀ (r : Text) (xs : List Lexeme), EndsNumeral r → Lexes r xs →
        Lexes (last.elim [] Text.ofInt ++ r) (boundLexemes last' ++ xs) := by
    cases last with
    | none => exact ⟨none, rfl, fun _ _ _ hr => hr⟩
    | some i =>
      have hi : ShortInteger i := h i (by simp [Slice.integers])
      exact ⟨some (.ofInt i hi), congrArg some (IntegerNumeral.value_ofInt i hi), fun _ _ hend hr =>
        Lexes.integer i hend hr⟩
  refine ⟨.slice (some (.ofInt first hfirst)) last' (some (some ⟨.ofInt step hstep, hpos⟩)), ?_, fun r xs hend hr => ?_⟩
  · simp [SelectorTree.selector, sliceOf, hvalue, IntegerNumeral.value_ofInt]
  · have hcolon : Lexes (chars [':'] ++ (Text.ofInt step ++ r)) (.colon :: _) :=
      Lexes.symbol (by decide) (Lexes.integer step hend.endsNumeral hr)
    have hmiddle := hlast _ _ (endsNumeral_cons _ (Or.inl rfl)) hcolon
    have hbounds : Lexes (chars [':'] ++ _) (.colon :: _) := Lexes.symbol (by decide) hmiddle
    have hall := Lexes.integer first (endsNumeral_cons _ (Or.inl rfl)) hbounds
    simp only [SelectorTree.lexemes, List.append_assoc, List.cons_append]
    exact hall

theorem readsEntry_filter (op : Operator) (literal : Literal) (hsub : ReadsSubpath s head tail)
    (h : ∀ i ∈ literal.integers, ShortInteger i) :
    ReadsEntry (filterText s (.string op.text) literal.toValue) (.filter none head tail op literal) := by
  obtain ⟨tree, htokens, hlexes⟩ := hsub
  obtain ⟨l, hl, hliteral⟩ := literal.exists_tree h
  refine ⟨.filter tree op l, ?_, fun r xs _ hr => ?_⟩
  · rw [SelectorTree.selector, htokens, hliteral]
  · have hclose : Lexes (chars [')'] ++ r) (.rightParen :: xs) := Lexes.symbol (by decide) hr
    have hpath := hlexes _ _ (Lexes.operator op (literal.lexes_text rfl hclose))
    rw [List.append_assoc] at hpath
    have hparen : Lexes (chars ['('] ++ _) (.leftParen :: _) := Lexes.symbol (by decide) hpath
    have hquestion : Lexes (chars ['?'] ++ _) (.question :: _) := Lexes.symbol (by decide) hparen
    have hwritten : literal.toValue.written = literal.text := by rw [Value.written, Checked.ofValue?_toValue]; rfl
    simp only [filterText, Value.given, hwritten, SelectorTree.lexemes, hl, List.append_assoc, List.cons_append,
      List.nil_append]
    exact hquestion

theorem readsSegment_descend (s : Text) (h : s ≠ []) :
    ReadsSegment (chars ['.', '.'] ++ bracketed s.quoted) (.descend s h) := by
  refine ⟨.quotedDescent s h, rfl, fun r xs hr => ?_⟩
  simp only [bracketed, List.append_assoc]
  exact Lexes.dots (lexes_bracketed s hr)

end

/-! ## The texts of calls -/

theorem written_toValue (k : Key) : k.toValue.written = k.text := by
  cases k <;> rfl

theorem writtenEnd_of_sliceEnd {last : Value} {j : Option Int}
    (h : Token.sliceEnd (if last.isNull then .openEnd else last) = .ok j) :
    last.writtenEnd = j.elim [] Text.ofInt := by
  cases last with
  | null =>
    cases h
    rfl
  | openEnd =>
    cases h
    rfl
  | number x =>
    cases x with
    | int i =>
      cases h
      rfl
    | _ => cases h
  | _ => cases h

theorem join_cons (separator s : Text) (pieces : List Text) :
    Text.join separator (s :: pieces) = s ++ pieces.flatMap (separator ++ ·) := by
  induction pieces generalizing s with
  | nil => rfl
  | cons p pieces ih =>
    show s ++ (separator ++ Text.join separator (p :: pieces)) = _
    rw [ih, List.flatMap_cons, List.append_assoc]

/-- The keys of a union, with commas between them. -/
theorem join_written (first : Key) (others : List Key) :
    Text.join (chars [',']) (((first :: others).map Key.toValue).map Value.written) =
      first.text ++ textOthers (others.map .child) := by
  rw [List.map_cons, List.map_cons, join_cons, written_toValue]
  congr 1
  induction others with
  | nil => rfl
  | cons k others ih =>
    rw [List.map_cons, List.map_cons, List.flatMap_cons, ih, written_toValue, List.map_cons, textOthers]
    rfl

mutual

/-- A call that anchors nothing stands for a segment. -/
theorem Call.reads : ∀ (c : Call) {t : Token}, c.Adds t → c.isAnchor = false → c.inOrder = true →
    (∀ i ∈ t.integers, ShortInteger i) → ReadsSegment c.text t.collapsed
  | .root, _, _, ha, _, _ => by cases ha
  | .current, _, _, ha, _, _ => by cases ha
  | .wildcard, _, .wildcard, _, _, _ => (readsEntry_text .wildcard rfl shortInteger_nil).bracketed
  | .key _, _, .key s, _, _, h => (readsEntry_text (.child (.name s)) rfl h).bracketed
  | .index _, _, .index i, _, _, h => (readsEntry_text (.child (.index i)) rfl h).bracketed
  | .descend _, _, .descend s hs, _, _, _ => readsSegment_descend s hs
  | .slice _ _ _, _, .slice bounds hlast, _, _, h => by
    rw [Call.text, writtenEnd_of_sliceEnd hlast]
    exact (readsEntry_slice bounds h).bracketed
  | .union _, _, .union first others, _, _, h => by
    rw [Call.text, join_written, Token.collapsed, collapsedOthers_child]
    exact readsSegment_union first others h
  | .filter _ _ _, _, .filter op literal hcompile, _, _, h => by
    rw [Token.integers, Selector.integers, List.forall_mem_append] at h
    have hread := (readsEntry_filter op literal (readsSubpath_of_compile hcompile) h.2).bracketed
    obtain ⟨hhead, htail⟩ := List.cons.inj (collapsedAll_of_compile hcompile)
    rw [Token.collapsed, Selector.collapsed, hhead, htail]
    exact hread
  | .filterBuilt calls _ _, _, .filterBuilt op literal hcalls, _, ho, h => by
    rw [Token.integers, Selector.integers, List.forall_mem_append] at h
    exact (readsEntry_filter op literal (AddsAll.readsPath calls hcalls ho h.1).subpath h.2).bracketed

/-- Calls that anchor nothing stand for segments. -/
theorem AddsAll.reads : ∀ (cs : List Call) {ts : List Token}, AddsAll cs ts → noAnchor cs = true →
    (∀ i ∈ integersAll ts, ShortInteger i) → ReadsSegments (callsText cs) (collapsedAll ts)
  | [], _, .nil, _, _ => readsSegments_nil
  | c :: cs, _, .added hs ht hcs, ho, h => by
    rw [noAnchor, hs, Bool.not_true, Bool.false_or, Bool.and_eq_true, Bool.and_eq_true, Bool.not_eq_true'] at ho
    rw [integersAll, List.forall_mem_append] at h
    rw [callsText, if_pos hs]
    exact (Call.reads c ht ho.1.1 ho.1.2 h.1).cons (AddsAll.reads cs hcs ho.2 h.2)
  | c :: cs, _, .refused hs hcs, ho, h => by
    rw [noAnchor, hs, Bool.not_false, Bool.true_or, Bool.true_and] at ho
    rw [callsText, if_neg (by simp [hs]), List.nil_append]
    exact AddsAll.reads cs hcs ho h

/-- Calls with an anchor in front at most stand for a path. -/
theorem AddsAll.readsPath : ∀ (cs : List Call) {t : Token} {ts : List Token}, AddsAll cs (t :: ts) →
    anchorFirst cs = true → (∀ i ∈ integersAll (t :: ts), ShortInteger i) →
    ReadsPath (callsText cs) t.collapsed (collapsedAll ts)
  | c :: cs, t, _, .added hs ht hcs, ho, h => by
    rw [anchorFirst, if_pos hs, Bool.and_eq_true] at ho
    rw [integersAll, List.forall_mem_append] at h
    rw [callsText, if_pos hs]
    have hrest := AddsAll.reads cs hcs ho.2 h.2
    cases ha : c.isAnchor with
    | false => exact (Call.reads c ht ha ho.1 h.1).path hrest
    | true =>
      cases ht with
      | root => exact hrest.opened (o := .root) (by decide)
      | current => exact hrest.opened (o := .current) (by decide)
      | _ => cases ha
  | c :: cs, _, _, .refused hs hcs, ho, h => by
    rw [anchorFirst, if_neg (by simp [hs])] at ho
    rw [callsText, if_neg (by simp [hs]), List.nil_append]
    exact AddsAll.readsPath cs hcs ho h

end

/-! ## Calls and well-formed paths -/

mutual

/-- A call adds a token that is well-formed unless the call is a union of a single key. -/
theorem Call.isWellFormed : ∀ (c : Call) {t : Token}, c.Adds t → c.inOrder = true →
    t.isWellFormed = c.isPlural ∧ t.isAnchor = c.isAnchor
  | .root, _, .root, _ => ⟨rfl, rfl⟩
  | .current, _, .current, _ => ⟨rfl, rfl⟩
  | .wildcard, _, .wildcard, _ => ⟨rfl, rfl⟩
  | .key _, _, .key _, _ => ⟨rfl, rfl⟩
  | .index _, _, .index _, _ => ⟨rfl, rfl⟩
  | .descend _, _, .descend _ _, _ => ⟨rfl, rfl⟩
  | .slice _ _ _, _, .slice _ _, _ => ⟨rfl, rfl⟩
  | .union _, _, .union first others, _ => by
    refine ⟨?_, rfl⟩
    rw [Token.isWellFormed, othersWellFormed_child]
    cases others with
    | nil => rfl
    | cons k others => rfl
  | .filter _ _ _, _, .filter op literal hcompile, _ => ⟨(isRead_of_compile hcompile).1, rfl⟩
  | .filterBuilt calls _ _, _, .filterBuilt op literal hcalls, ho => ⟨AddsAll.isWellFormed calls hcalls ho, rfl⟩

theorem AddsAll.followWellFormed : ∀ (cs : List Call) {ts : List Token}, AddsAll cs ts → noAnchor cs = true →
    followWellFormed ts = allPlural cs
  | [], _, .nil, _ => rfl
  | c :: cs, _, .added hs ht hcs, ho => by
    rw [noAnchor, hs, Bool.not_true, Bool.false_or, Bool.and_eq_true, Bool.and_eq_true, Bool.not_eq_true'] at ho
    obtain ⟨hwf, hanchor⟩ := Call.isWellFormed c ht ho.1.2
    rw [TreePath.followWellFormed, allPlural, hs, hwf, hanchor, ho.1.1, AddsAll.followWellFormed cs hcs ho.2]
    rfl
  | c :: cs, _, .refused hs hcs, ho => by
    rw [noAnchor, hs, Bool.not_false, Bool.true_or, Bool.true_and] at ho
    rw [allPlural, hs, AddsAll.followWellFormed cs hcs ho]
    rfl

theorem AddsAll.isWellFormed : ∀ (cs : List Call) {t : Token} {ts : List Token}, AddsAll cs (t :: ts) →
    anchorFirst cs = true → (t.isWellFormed && TreePath.followWellFormed ts) = allPlural cs
  | c :: cs, _, _, .added hs ht hcs, ho => by
    rw [anchorFirst, if_pos hs, Bool.and_eq_true] at ho
    rw [allPlural, hs, (Call.isWellFormed c ht ho.1).1, AddsAll.followWellFormed cs hcs ho.2]
    rfl
  | c :: cs, _, _, .refused hs hcs, ho => by
    rw [anchorFirst, if_neg (by simp [hs])] at ho
    rw [allPlural, hs, AddsAll.isWellFormed cs hcs ho]
    rfl

end

theorem AddsAll.ne_nil : ∀ {cs : List Call} {ts : List Token}, AddsAll cs ts → cs.any Call.succeeds = true → ts ≠ []
  | [], _, .nil, h => by cases h
  | _ :: _, _, .added _ _ _, _ => List.cons_ne_nil _ _
  | c :: cs, _, .refused hs hcs, h => by
    rw [List.any_cons, hs, Bool.false_or] at h
    exact hcs.ne_nil h

/-! ## Main statement -/

/-- **Building and compiling agree on all calls but unions of a single key.** Let calls be made on an empty builder,
with anchors as the first call at most and one call at least that is not refused. The refused ones might as well not
have been made. The text of the calls compiles to the path of the builder, where a union of a single key is read as the
key, and the two paths are equal if and only if there is no such union, in the path or in the path of a filter. -/
theorem compile_callsText (calls : List Call) (horder : anchorFirst calls = true)
    (hsome : calls.any Call.succeeds = true)
    (hshort : ∀ p, (callAll calls .empty).build = .ok p → ∀ i ∈ p.integers, ShortInteger i) :
    callAll (calls.filter Call.succeeds) .empty = callAll calls .empty ∧
    ∃ p q, (callAll calls .empty).build = .ok p ∧ Path.compile (callsText calls) = .ok q ∧
      q.tokens = collapsedAll p.tokens ∧ (p.same q = true ↔ allPlural calls = true) := by
  obtain ⟨ts, hts, hbuild⟩ := build_callAll calls
  have hne := hts.ne_nil hsome
  cases ts with
  | nil => exact absurd rfl hne
  | cons t ts =>
    have hread := AddsAll.readsPath calls hts horder (hshort _ hbuild)
    refine ⟨callAll_filter calls .empty, _, _, hbuild, hread.compile, rfl, ?_⟩
    have hplural := AddsAll.isWellFormed calls hts horder
    constructor
    · intro hsame
      have hwf := Path.isWellFormed_of_same hsame
      rw [(isRead_of_compile hread.compile).1] at hwf
      exact hplural.symm.trans hwf
    · intro h
      exact sameTokens_collapsedAll (hplural.trans h)

/-- An index that is refused, and a filter over a builder with a union of two keys. -/
theorem compile_callsText_filterBuilt :
    ∃ p q, (callAll [.index (.bool true), .root, .filterBuilt [.current, .union [.string (chars ['a']), .int (-1)]]
          (.string (chars ['!', '='])) .null] .empty).build = .ok p ∧
      Path.compile (chars ['$', '[', '?', '(', '@', '[', '\'', 'a', '\'', ',', '-', '1', ']', ' ', '!', '=', ' ', 'n',
        'u', 'l', 'l', ')', ']']) = .ok q ∧ q.tokens = collapsedAll p.tokens ∧ p.same q = true := by
  have htext : callsText [.index (.bool true), .root, .filterBuilt [.current, .union [.string (chars ['a']), .int (-1)]]
      (.string (chars ['!', '='])) .null] = chars ['$', '[', '?', '(', '@', '[', '\'', 'a', '\'', ',', '-', '1', ']',
        ' ', '!', '=', ' ', 'n', 'u', 'l', 'l', ')', ']'] := by decide +kernel
  obtain ⟨_, p, q, hp, hq, htokens, hsame⟩ := compile_callsText [.index (.bool true), .root,
      .filterBuilt [.current, .union [.string (chars ['a']), .int (-1)]] (.string (chars ['!', '='])) .null]
    (by decide +kernel) (by decide +kernel) (fun p hp => by
      rw [← Except.ok.inj hp]
      decide +kernel)
  rw [htext] at hq
  exact ⟨p, q, hp, hq, htokens, hsame.2 (by decide +kernel)⟩

/-- A union of a single key is not read from its text. -/
theorem compile_lone_union :
    (callAll [.root, .union [.string (chars ['a'])]] .empty).build =
        .ok ⟨[.root, .union (.child (.name (chars ['a']))) []], none⟩ ∧
      Path.compile (chars ['$', '[', '\'', 'a', '\'', ']']) =
        .ok ⟨[.root, .child (.name (chars ['a']))], some (chars ['$', '[', '\'', 'a', '\'', ']'])⟩ ∧
      Path.same ⟨[.root, .union (.child (.name (chars ['a']))) []], none⟩
        ⟨[.root, .child (.name (chars ['a']))], some (chars ['$', '[', '\'', 'a', '\'', ']'])⟩ = false := by
  have hcalls : AddsAll [.root, .union [.string (chars ['a'])]] [.root, .union (.child (.name (chars ['a']))) []] :=
    .added rfl .root (.added rfl (.union (.name (chars ['a'])) []) .nil)
  exact ⟨rfl, (AddsAll.readsPath _ hcalls rfl (fun _ h => by cases h)).compile, by decide +kernel⟩

end TreePath
