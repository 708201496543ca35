import TreePath.Path.Parse

/-!
# The grammar of paths

A derivation of the grammar is a tree (`PathTree`): `lexemes` reads its leaves from left to right, and `tokens` is what
it stands for. In the notation of the constructors,

* a path is an opening (`$`, `@` or a name) and segments, or one segment at least;
* a segment is `.*`, `.name`, `..name`, `..['key']`, or selectors in brackets with commas between them;
* a selector is `*`, a key in quotes, an index, a slice with optional parts, or `?(path op literal)`.

No list of lexemes has two derivations (`PathTree.lexemes_injective`). The proof compares two trees from the left with
any lexemes behind them; which lexemes may stand there is what tells where a tree ends (`NoSegment`, `EndsSelector`).
-/

namespace TreePath

/-! ## Leaves -/

/-- A numeral of an integer that is short enough to be read. -/
structure IntegerNumeral where
  numeral : Numeral
  isInteger : numeral.isInteger = true
  short : numeral.whole.length ≤ Parse.digitLimit

def IntegerNumeral.value (n : IntegerNumeral) : Int := n.numeral.integer

structure PositiveNumeral extends IntegerNumeral where
  pos : 0 < toIntegerNumeral.value

/-- A number, a text or one of three names. -/
inductive LiteralTree
  | integer (n : IntegerNumeral)
  | float (n : Numeral) (noInteger : n.isInteger = false) (finite : (Binary64.ofNumeral n).finite?.isSome = true)
  | string (s : Text)
  | bool (b : Bool)
  | null

/-- What a path may start with. -/
inductive Opening
  | root
  | current
  | name (c : CodePoint) (s : Text)

/-! ## Trees -/

mutual

inductive PathTree
  | opened (opening : Opening) (segments : List SegmentTree)
  | bare (first : SegmentTree) (others : List SegmentTree)

inductive SegmentTree
  | star
  | name (c : CodePoint) (s : Text)
  | descent (c : CodePoint) (s : Text)
  | quotedDescent (key : Text) (key_ne : key ≠ [])
  | brackets (first : SelectorTree) (others : List SelectorTree)

inductive SelectorTree
  | star
  | key (s : Text)
  | index (n : IntegerNumeral)
  /-- The step may lack its number, or its colon as well. -/
  | slice (first last : Option IntegerNumeral) (step : Option (Option PositiveNumeral))
  | filter (path : PathTree) (op : Operator) (literal : LiteralTree)

end

/-! ## The lexemes of a tree -/

def IntegerNumeral.lexeme (n : IntegerNumeral) : Lexeme := .number n.numeral

def LiteralTree.lexeme : LiteralTree → Lexeme
  | .integer n => n.lexeme
  | .float n _ _ => .number n
  | .string s => .string s
  | .bool true => .name 't' (chars ['r', 'u', 'e'])
  | .bool false => .name 'f' (chars ['a', 'l', 's', 'e'])
  | .null => .name 'n' (chars ['u', 'l', 'l'])

def Opening.lexeme : Opening → Lexeme
  | .root => .root
  | .current => .current
  | .name c s => .name c s

/-- The lexemes of a part that may be left out. -/
def boundLexemes (n : Option IntegerNumeral) : List Lexeme := (n.map IntegerNumeral.lexeme).toList

def stepLexemes : Option (Option PositiveNumeral) → List Lexeme
  | none => []
  | some n => .colon :: boundLexemes (n.map PositiveNumeral.toIntegerNumeral)

mutual

def PathTree.lexemes : PathTree → List Lexeme
  | .opened opening segments => opening.lexeme :: segmentLexemes segments
  | .bare first others => first.lexemes ++ segmentLexemes others

def SegmentTree.lexemes : SegmentTree → List Lexeme
  | .star => [.dot, .star]
  | .name c s => [.dot, .name c s]
  | .descent c s => [.dots, .name c s]
  | .quotedDescent key _ => [.dots, .leftBracket, .string key, .rightBracket]
  | .brackets first others => .leftBracket :: first.lexemes ++ selectorLexemes others ++ [.rightBracket]

def SelectorTree.lexemes : SelectorTree → List Lexeme
  | .star => [.star]
  | .key s => [.string s]
  | .index n => [n.lexeme]
  | .slice first last step => boundLexemes first ++ .colon :: boundLexemes last ++ stepLexemes step
  | .filter path op literal =>
    .question :: .leftParen :: path.lexemes ++ [.operator op, literal.lexeme, .rightParen]

/-- Segments one behind the other. -/
def segmentLexemes : List SegmentTree → List Lexeme
  | [] => []
  | s :: ss => s.lexemes ++ segmentLexemes ss

/-- The further selectors between brackets, each behind a comma. -/
def selectorLexemes : List SelectorTree → List Lexeme
  | [] => []
  | s :: ss => .comma :: s.lexemes ++ selectorLexemes ss

end

/-! ## What a tree stands for -/

def LiteralTree.literal : LiteralTree → Literal
  | .integer n => .int n.value
  | .float n _ finite => .float ((Binary64.ofNumeral n).finite?.get finite)
  | .string s => .string s
  | .bool b => .bool b
  | .null => .null

def Opening.token : Opening → Token
  | .root => .root
  | .current => .current
  | .name c s => .child (.name (c :: s))

/-- A slice without a first bound starts at zero, one without a step has step one. -/
def sliceOf (first last : Option IntegerNumeral) : Option (Option PositiveNumeral) → Slice
  | some (some n) =>
    ⟨(first.map IntegerNumeral.value).getD 0, last.map IntegerNumeral.value, n.value.toNat, by
      have : 0 < n.value := n.pos
      omega⟩
  | _ => ⟨(first.map IntegerNumeral.value).getD 0, last.map IntegerNumeral.value, 1, Nat.one_pos⟩

/-- One selector between brackets is a token of its own, several are a union. -/
def Token.ofSelectors (first : Selector) : (others : List Selector) → Token
  | [] => .select first
  | s :: ss => .union first (s :: ss)

mutual

def PathTree.tokens : PathTree → Token × List Token
  | .opened opening segments => (opening.token, segmentTokens segments)
  | .bare first others => (first.token, segmentTokens others)

def SegmentTree.token : SegmentTree → Token
  | .star => .wildcard
  | .name c s => .child (.name (c :: s))
  | .descent c s => .descend (c :: s) (List.cons_ne_nil c s)
  | .quotedDescent key key_ne => .descend key key_ne
  | .brackets first others => .ofSelectors first.selector (selectorsOf others)

def SelectorTree.selector : SelectorTree → Selector
  | .star => .wildcard
  | .key s => .child (.name s)
  | .index n => .child (.index n.value)
  | .slice first last step => .slice (sliceOf first last step)
  | .filter path op literal => .filter none path.tokens.1 path.tokens.2 op literal.literal

def segmentTokens : List SegmentTree → List Token
  | [] => []
  | s :: ss => s.token :: segmentTokens ss

def selectorsOf : List SelectorTree → List Selector
  | [] => []
  | s :: ss => s.selector :: selectorsOf ss

end

/-! ## Uniqueness of derivations -/

/-- The lexemes do not go on with a segment. -/
def NoSegment (r : List Lexeme) : Prop := ∀ x, r.head? = some x → x ≠ .dot ∧ x ≠ .dots ∧ x ≠ .leftBracket

/-- The lexemes go on with what may stand behind a selector. -/
def EndsSelector (r : List Lexeme) : Prop := r.head? = some .comma ∨ r.head? = some .rightBracket

theorem noSegment_nil : NoSegment [] := fun _ h => by cases h

theorem noSegment_operator (op : Operator) (r : List Lexeme) : NoSegment (.operator op :: r) := by
  intro x h
  cases h
  exact ⟨by simp, by simp, by simp⟩

theorem IntegerNumeral.ext {n m : IntegerNumeral} (h : n.numeral = m.numeral) : n = m := by
  obtain ⟨_, _, _⟩ := n
  obtain ⟨_, _, _⟩ := m
  cases h
  rfl

theorem PositiveNumeral.ext {n m : PositiveNumeral} (h : n.numeral = m.numeral) : n = m := by
  obtain ⟨n, _⟩ := n
  obtain ⟨m, _⟩ := m
  cases IntegerNumeral.ext h
  rfl

theorem IntegerNumeral.lexeme_injective {n m : IntegerNumeral} (h : n.lexeme = m.lexeme) : n = m :=
  IntegerNumeral.ext (Lexeme.number.inj h)

/-- An integer literal is no floating-point one, and the three names differ. -/
theorem LiteralTree.lexeme_injective {l l' : LiteralTree} (h : l.lexeme = l'.lexeme) : l = l' := by
  cases l with
  | integer n =>
    cases l' with
    | integer m => rw [IntegerNumeral.lexeme_injective h]
    | float m hm _ => exact absurd n.isInteger (by rw [Lexeme.number.inj h, hm]; simp)
    | bool b => cases b <;> cases h
    | _ => cases h
  | float n hn _ =>
    cases l' with
    | integer m => exact absurd m.isInteger (by rw [← Lexeme.number.inj h, hn]; simp)
    | float m _ _ => cases Lexeme.number.inj h; rfl
    | bool b => cases b <;> cases h
    | _ => cases h
  | string s =>
    cases l' with
    | string s' => rw [Lexeme.string.inj h]
    | bool b => cases b <;> cases h
    | _ => cases h
  | bool b =>
    cases l' with
    | bool b' => cases b <;> cases b' <;> first | rfl | exact absurd h (by decide)
    | null => cases b <;> exact absurd h (by decide)
    | _ => cases b <;> cases h
  | null =>
    cases l' with
    | bool b => cases b <;> exact absurd h (by decide)
    | null => rfl
    | _ => cases h

/-- What is left behind an optional numeral does not start with one, so the numeral is not left out by choice. -/
theorem boundLexemes_append_inj {a b : Option IntegerNumeral} {r r' : List Lexeme}
    (hr : ∀ n, r.head? ≠ some (.number n)) (hr' : ∀ n, r'.head? ≠ some (.number n))
    (h : boundLexemes a ++ r = boundLexemes b ++ r') : a = b ∧ r = r' := by
  cases a with
  | none =>
    cases b with
    | none => exact ⟨rfl, h⟩
    | some m => exact absurd (congrArg List.head? h) (hr m.numeral)
  | some n =>
    cases b with
    | none => exact absurd (congrArg List.head? h).symm (hr' n.numeral)
    | some m =>
      obtain ⟨hn, hr⟩ := List.cons.inj h
      exact ⟨congrArg some (IntegerNumeral.lexeme_injective hn), hr⟩

theorem EndsSelector.ne_number {r : List Lexeme} (h : EndsSelector r) (n : Numeral) : r.head? ≠ some (.number n) := by
  rcases h with h | h <;> rw [h] <;> simp

theorem EndsSelector.ne_colon {r : List Lexeme} (h : EndsSelector r) : r.head? ≠ some .colon := by
  rcases h with h | h <;> rw [h] <;> simp

theorem stepLexemes_append_inj {a b : Option (Option PositiveNumeral)} {r r' : List Lexeme} (hr : EndsSelector r)
    (hr' : EndsSelector r') (h : stepLexemes a ++ r = stepLexemes b ++ r') : a = b ∧ r = r' := by
  cases a with
  | none =>
    cases b with
    | none => exact ⟨rfl, h⟩
    | some m => exact absurd (congrArg List.head? h) hr.ne_colon
  | some n =>
    cases b with
    | none => exact absurd (congrArg List.head? h).symm hr'.ne_colon
    | some m =>
      obtain ⟨hn, he⟩ := boundLexemes_append_inj hr.ne_number hr'.ne_number (List.cons.inj h).2
      refine ⟨?_, he⟩
      cases n <;> cases m <;> simp_all
      exact PositiveNumeral.ext (congrArg IntegerNumeral.numeral hn)

theorem stepLexemes_ne_number {a : Option (Option PositiveNumeral)} {r : List Lexeme} (hr : EndsSelector r)
    (n : Numeral) : (stepLexemes a ++ r).head? ≠ some (.number n) := by
  cases a with
  | none => exact hr.ne_number n
  | some m => simp [stepLexemes]

/-- Segments start with a point, two points or a bracket. -/
theorem SegmentTree.not_noSegment (s : SegmentTree) (r : List Lexeme) : ¬ NoSegment (s.lexemes ++ r) := by
  intro h
  cases s with
  | star => exact (h _ rfl).1 rfl
  | name c s => exact (h _ rfl).1 rfl
  | descent c s => exact (h _ rfl).2.1 rfl
  | quotedDescent key key_ne => exact (h _ rfl).2.1 rfl
  | brackets first others => exact (h _ rfl).2.2 rfl

theorem Opening.noSegment (o : Opening) (r : List Lexeme) : NoSegment (o.lexeme :: r) := by
  intro x h
  cases o <;> cases h <;> exact ⟨Lexeme.noConfusion, Lexeme.noConfusion, Lexeme.noConfusion⟩

theorem Opening.lexeme_injective {o o' : Opening} (h : o.lexeme = o'.lexeme) : o = o' := by
  cases o <;> cases o' <;> cases h <;> rfl

theorem selectorLexemes_endsSelector (ss : List SelectorTree) (r : List Lexeme) :
    EndsSelector (selectorLexemes ss ++ .rightBracket :: r) := by
  cases ss with
  | nil => exact Or.inr rfl
  | cons s ss => exact Or.inl rfl

/-- A slice starts with a numeral or a colon. -/
theorem SelectorTree.slice_ne {first last : Option IntegerNumeral} {step : Option (Option PositiveNumeral)}
    {r r' : List Lexeme} {x : Lexeme} (hn : ∀ n, x ≠ .number n) (hc : x ≠ .colon) :
    x :: r ≠ (SelectorTree.slice first last step).lexemes ++ r' := by
  intro h
  cases first with
  | none => exact hc (List.cons.inj h).1
  | some n => exact hn n.numeral (List.cons.inj h).1

theorem SelectorTree.slice_append_inj {first last first' last' : Option IntegerNumeral}
    {step step' : Option (Option PositiveNumeral)} {r r' : List Lexeme} (hr : EndsSelector r) (hr' : EndsSelector r')
    (h : (SelectorTree.slice first last step).lexemes ++ r = (SelectorTree.slice first' last' step').lexemes ++ r') :
    SelectorTree.slice first last step = .slice first' last' step' ∧ r = r' := by
  simp only [SelectorTree.lexemes, List.append_assoc, List.cons_append] at h
  obtain ⟨rfl, h₁⟩ := boundLexemes_append_inj (by simp) (by simp) h
  obtain ⟨rfl, h₂⟩ := boundLexemes_append_inj (stepLexemes_ne_number hr) (stepLexemes_ne_number hr')
    (List.cons.inj h₁).2
  obtain ⟨rfl, h₃⟩ := stepLexemes_append_inj hr hr' h₂
  exact ⟨rfl, h₃⟩

/-- An index is no slice, since no colon stands behind it. -/
theorem SelectorTree.index_ne_slice {n : IntegerNumeral} {first last : Option IntegerNumeral}
    {step : Option (Option PositiveNumeral)} {r r' : List Lexeme} (hr : EndsSelector r) :
    (SelectorTree.index n).lexemes ++ r ≠ (SelectorTree.slice first last step).lexemes ++ r' := by
  intro h
  cases first with
  | none => cases (List.cons.inj h).1
  | some m => exact hr.ne_colon (congrArg List.head? (List.cons.inj h).2)

mutual

theorem PathTree.lexemes_append_inj : ∀ (t t' : PathTree) {r r' : List Lexeme}, NoSegment r → NoSegment r' →
    t.lexemes ++ r = t'.lexemes ++ r' → t = t' ∧ r = r'
  | .opened o ss, .opened o' ss', r, r', hr, hr', h => by
    obtain ⟨ho, h₁⟩ := List.cons.inj h
    obtain ⟨rfl, rfl⟩ := segmentLexemes_append_inj ss ss' hr hr' h₁
    exact ⟨by rw [Opening.lexeme_injective ho], rfl⟩
  | .opened o ss, .bare s' ss', r, r', _, _, h => by
    rw [PathTree.lexemes, PathTree.lexemes, List.cons_append, List.append_assoc] at h
    exact absurd (h ▸ o.noSegment (segmentLexemes ss ++ r)) (s'.not_noSegment _)
  | .bare s ss, .opened o' ss', r, r', _, _, h => by
    rw [PathTree.lexemes, PathTree.lexemes, List.cons_append, List.append_assoc] at h
    exact absurd (h ▸ o'.noSegment (segmentLexemes ss' ++ r')) (s.not_noSegment _)
  | .bare s ss, .bare s' ss', r, r', hr, hr', h => by
    rw [PathTree.lexemes, PathTree.lexemes, List.append_assoc, List.append_assoc] at h
    obtain ⟨rfl, h₁⟩ := SegmentTree.lexemes_append_inj s s' h
    obtain ⟨rfl, rfl⟩ := segmentLexemes_append_inj ss ss' hr hr' h₁
    exact ⟨rfl, rfl⟩

theorem SegmentTree.lexemes_append_inj : ∀ (s s' : SegmentTree) {r r' : List Lexeme},
    s.lexemes ++ r = s'.lexemes ++ r' → s = s' ∧ r = r'
  | .star, s', r, r', h | .name _ _, s', r, r', h | .descent _ _, s', r, r', h
  | .quotedDescent _ _, s', r, r', h => by
    cases s' <;> simp_all [SegmentTree.lexemes]
  | .brackets first others, s', r, r', h => by
    cases s' with
    | brackets first' others' =>
      simp only [SegmentTree.lexemes, List.cons_append, List.append_assoc, List.nil_append] at h
      obtain ⟨rfl, h₁⟩ := SelectorTree.lexemes_append_inj first first' (selectorLexemes_endsSelector _ _)
        (selectorLexemes_endsSelector _ _) (List.cons.inj h).2
      obtain ⟨rfl, h₂⟩ := selectorLexemes_append_inj others others' h₁
      exact ⟨rfl, h₂⟩
    | _ => simp [SegmentTree.lexemes] at h

theorem SelectorTree.lexemes_append_inj : ∀ (s s' : SelectorTree) {r r' : List Lexeme}, EndsSelector r →
    EndsSelector r' → s.lexemes ++ r = s'.lexemes ++ r' → s = s' ∧ r = r'
  | .star, s', r, r', _, _, h => by
    cases s' with
    | star => exact ⟨rfl, (List.cons.inj h).2⟩
    | slice => exact absurd h (SelectorTree.slice_ne (by simp) (by simp))
    | _ => cases (List.cons.inj h).1
  | .key k, s', r, r', _, _, h => by
    cases s' with
    | key k' =>
      obtain ⟨hk, hr⟩ := List.cons.inj h
      exact ⟨by rw [Lexeme.string.inj hk], hr⟩
    | slice => exact absurd h (SelectorTree.slice_ne (by simp) (by simp))
    | _ => cases (List.cons.inj h).1
  | .index n, s', r, r', hr, _, h => by
    cases s' with
    | index m =>
      obtain ⟨hn, hr⟩ := List.cons.inj h
      exact ⟨by rw [IntegerNumeral.lexeme_injective hn], hr⟩
    | slice => exact absurd h (SelectorTree.index_ne_slice hr)
    | _ => cases (List.cons.inj h).1
  | .slice first last step, s', r, r', hr, hr', h => by
    cases s' with
    | slice => exact SelectorTree.slice_append_inj hr hr' h
    | index m => exact absurd h.symm (SelectorTree.index_ne_slice hr')
    | _ => exact absurd h.symm (SelectorTree.slice_ne (by simp) (by simp))
  | .filter path op literal, s', r, r', _, _, h => by
    cases s' with
    | filter path' op' literal' =>
      simp only [SelectorTree.lexemes, List.cons_append, List.append_assoc, List.nil_append] at h
      obtain ⟨rfl, h₁⟩ := PathTree.lexemes_append_inj path path' (noSegment_operator _ _) (noSegment_operator _ _)
        (List.cons.inj (List.cons.inj h).2).2
      obtain ⟨ho, h₂⟩ := List.cons.inj h₁
      obtain ⟨hl, h₃⟩ := List.cons.inj h₂
      exact ⟨by rw [Lexeme.operator.inj ho, LiteralTree.lexeme_injective hl], (List.cons.inj h₃).2⟩
    | slice => exact absurd h (SelectorTree.slice_ne (by simp) (by simp))
    | _ => cases (List.cons.inj h).1

theorem segmentLexemes_append_inj : ∀ (ss ss' : List SegmentTree) {r r' : List Lexeme}, NoSegment r → NoSegment r' →
    segmentLexemes ss ++ r = segmentLexemes ss' ++ r' → ss = ss' ∧ r = r'
  | [], [], _, _, _, _, h => ⟨rfl, h⟩
  | [], s' :: ss', r, r', hr, _, h => by
    rw [segmentLexemes, segmentLexemes, List.nil_append, List.append_assoc] at h
    exact absurd (h ▸ hr) (s'.not_noSegment _)
  | s :: ss, [], r, r', _, hr', h => by
    rw [segmentLexemes, segmentLexemes, List.nil_append, List.append_assoc] at h
    exact absurd (h ▸ hr') (s.not_noSegment _)
  | s :: ss, s' :: ss', r, r', hr, hr', h => by
    rw [segmentLexemes, segmentLexemes, List.append_assoc, List.append_assoc] at h
    obtain ⟨rfl, h₁⟩ := SegmentTree.lexemes_append_inj s s' h
    obtain ⟨rfl, rfl⟩ := segmentLexemes_append_inj ss ss' hr hr' h₁
    exact ⟨rfl, rfl⟩

/-- A list of selectors ends at its bracket. -/
theorem selectorLexemes_append_inj : ∀ (ss ss' : List SelectorTree) {r r' : List Lexeme},
    selectorLexemes ss ++ .rightBracket :: r = selectorLexemes ss' ++ .rightBracket :: r' → ss = ss' ∧ r = r'
  | [], [], _, _, h => ⟨rfl, (List.cons.inj h).2⟩
  | [], _ :: _, _, _, h => by cases (List.cons.inj h).1
  | _ :: _, [], _, _, h => by cases (List.cons.inj h).1
  | s :: ss, s' :: ss', r, r', h => by
    simp only [selectorLexemes, List.cons_append, List.append_assoc] at h
    obtain ⟨rfl, h₁⟩ := SelectorTree.lexemes_append_inj s s' (selectorLexemes_endsSelector _ _)
      (selectorLexemes_endsSelector _ _) (List.cons.inj h).2
    obtain ⟨rfl, h₂⟩ := selectorLexemes_append_inj ss ss' h₁
    exact ⟨rfl, h₂⟩

end

/-- Lexemes have one derivation at most. -/
theorem PathTree.lexemes_injective {t t' : PathTree} (h : t.lexemes = t'.lexemes) : t = t' := by
  apply (PathTree.lexemes_append_inj t t' noSegment_nil noSegment_nil _).1
  rw [h]

end TreePath
