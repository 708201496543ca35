import TreePath.Proofs.Failing
import TreePath.Proofs.WellFormed

/-!
# Writing and compiling

Writing and compiling are inverse on the well-formed paths and on no others (`compile_text_iff_wellFormed`).

* A well-formed path compiles from its text to its own tokens (`compile_text`).
* The text of any other path is malformed, or compiles to a path that is not equal (`compile_text_ne`): what compiles
  is well-formed, and equality respects that.
-/

namespace TreePath

/-! ## Numerals of a written path -/

/-- No integer numeral that is too long to be read. -/
def Lexeme.IsShort : Lexeme → Prop
  | .number n => n.isInteger = true → n.whole.length ≤ Parse.digitLimit
  | _ => True

theorem isShort_ofInt {i : Int} (h : ShortInteger i) : (Lexeme.number (.ofInt i)).IsShort := by
  intro _
  show (List.map digitPoint _).length ≤ _
  rw [List.length_map]
  exact h

theorem Literal.isShort_lexeme (l : Literal) (h : ∀ i ∈ l.integers, ShortInteger i) : l.lexeme.IsShort := by
  cases l with
  | bool b => cases b <;> trivial
  | int n => exact isShort_ofInt (h n (List.mem_cons_self ..))
  | float x =>
    intro hinteger
    rw [x.isInteger_numeral] at hinteger
    cases hinteger
  | _ => trivial

theorem Slice.isShort_spelling (s : Slice) (h : ∀ i ∈ s.integers, ShortInteger i) : ∀ x ∈ s.spelling, x.IsShort := by
  have hfirst : ShortInteger s.first := h _ (List.mem_cons_self ..)
  have hstep : ShortInteger s.step := h _ (by simp [Slice.integers])
  intro x hx
  rcases List.mem_append.1 hx with hx | hx
  · rcases List.mem_cons.1 hx with rfl | hx
    · exact isShort_ofInt hfirst
    · rcases List.mem_cons.1 hx with rfl | hx
      · trivial
      · obtain ⟨i, hi, rfl⟩ := Option.map_eq_some_iff.1 (Option.mem_toList.1 hx)
        exact isShort_ofInt (h i (by simp [Slice.integers, hi]))
  · split at hx
    · cases hx
    · rcases List.mem_cons.1 hx with rfl | hx
      · trivial
      · cases List.mem_singleton.1 hx
        exact isShort_ofInt hstep

/-- The lexemes of a key that stands bare or quoted are no numerals. -/
theorem isShort_key {d : Lexeme} (hd : d.IsShort) (key : Text) {quoted : List Lexeme}
    (hquoted : ∀ x ∈ quoted, x.IsShort) :
    ∀ x ∈ (match nameLexeme? key with
      | some x => [d, x]
      | none => quoted), x.IsShort := by
  rcases nameLexeme?_cases key with ⟨c, s, _, hx⟩ | hx
  · rw [hx]
    exact List.forall_mem_cons.2 ⟨hd, List.forall_mem_singleton.2 trivial⟩
  · rw [hx]
    exact hquoted

mutual

theorem Selector.isShort_spelling : ∀ s : Selector, (∀ i ∈ s.integers, ShortInteger i) → ∀ x ∈ s.spelling, x.IsShort
  | .child (.name _), _ => List.forall_mem_singleton.2 trivial
  | .child (.index i), h => List.forall_mem_singleton.2 (isShort_ofInt (h i (List.mem_cons_self ..)))
  | .slice bounds, h => bounds.isShort_spelling h
  | .wildcard, _ => List.forall_mem_singleton.2 trivial
  | .filter _ head tail op literal, h => by
    rw [Selector.integers, List.forall_mem_append, List.forall_mem_append] at h
    have hhead := Token.isShort_spelling head h.1.1
    have htail := isShort_spellingAll tail h.1.2
    have hliteral := literal.isShort_lexeme h.2
    rw [Selector.spelling]
    simp only [List.forall_mem_append, List.forall_mem_cons]
    exact ⟨⟨trivial, trivial, hhead, htail⟩, trivial, hliteral, trivial, fun _ hx => by cases hx⟩

theorem Token.isShort_spelling : ∀ t : Token, (∀ i ∈ t.integers, ShortInteger i) → ∀ x ∈ t.spelling, x.IsShort
  | .root, _ => List.forall_mem_singleton.2 trivial
  | .current, _ => List.forall_mem_singleton.2 trivial
  | .select s, h => by
    rcases Token.select_cases s with ⟨key, rfl⟩ | ⟨_, hspelling⟩
    · rw [Token.spelling]
      exact isShort_key (d := .dot) trivial key (by simp [Lexeme.IsShort])
    · have hs := Selector.isShort_spelling s h
      rw [hspelling]
      simp only [List.forall_mem_append, List.forall_mem_cons]
      exact ⟨⟨trivial, hs⟩, trivial, fun _ hx => by cases hx⟩
  | .descend key _, _ => by
    rw [Token.spelling]
    exact isShort_key (d := .dots) trivial key (by simp [Lexeme.IsShort])
  | .union first others, h => by
    rw [Token.integers, List.forall_mem_append] at h
    have hfirst := Selector.isShort_spelling first h.1
    have hothers := isShort_spellingOthers others h.2
    rw [Token.spelling]
    simp only [List.forall_mem_append, List.forall_mem_cons]
    exact ⟨⟨⟨trivial, hfirst⟩, hothers⟩, trivial, fun _ hx => by cases hx⟩

theorem isShort_spellingAll : ∀ ts : List Token, (∀ i ∈ integersAll ts, ShortInteger i) →
    ∀ x ∈ spellingAll ts, x.IsShort
  | [], _ => fun _ hx => by cases hx
  | t :: ts, h => by
    rw [integersAll, List.forall_mem_append] at h
    exact List.forall_mem_append.2 ⟨Token.isShort_spelling t h.1, isShort_spellingAll ts h.2⟩

theorem isShort_spellingOthers : ∀ ss : List Selector, (∀ i ∈ integersOthers ss, ShortInteger i) →
    ∀ x ∈ spellingOthers ss, x.IsShort
  | [], _ => fun _ hx => by cases hx
  | s :: ss, h => by
    rw [integersOthers, List.forall_mem_append] at h
    have hs := Selector.isShort_spelling s h.1
    have hss := isShort_spellingOthers ss h.2
    rw [spellingOthers]
    simp only [List.forall_mem_append, List.forall_mem_cons]
    exact ⟨⟨trivial, hs⟩, hss⟩

end

/-! ## A path is equal to itself -/

theorem Exact.compare_self (x : Exact) : x.compare x = .eq := by
  unfold Exact.compare Exact.comparePositive
  simp

/-- A literal is no NaN. -/
theorem Literal.same_self (l : Literal) : l.same l = true := by
  have hnumber : ∀ (n : Number) (x : Exact), n.realPart? = some (.exact x) →
      n.imaginaryPart? = some (.exact (.ofInt 0)) → n.equal n = true := by
    intro n x hre him
    unfold Number.equal
    rw [hre, him]
    simp [Number.compare?, Extended.compare, Exact.compare_self]
  cases l with
  | null => rfl
  | bool b => exact hnumber _ _ rfl rfl
  | int n => exact hnumber _ _ rfl rfl
  | float x => exact hnumber _ _ rfl rfl
  | string s => exact beq_self_eq_true s

mutual

theorem Selector.same_self : ∀ s : Selector, s.same s = true
  | .child _ => by simp [Selector.same]
  | .slice _ => by simp [Selector.same]
  | .wildcard => by simp [Selector.same]
  | .filter _ head tail op literal => by
    rw [Selector.same, Token.same_self head, sameTokens_self tail, literal.same_self, beq_self_eq_true]
    rfl

theorem Token.same_self : ∀ t : Token, t.same t = true
  | .root => by simp [Token.same]
  | .current => by simp [Token.same]
  | .select s => by rw [Token.same, Selector.same_self s]
  | .descend _ _ => by simp [Token.same]
  | .union first others => by rw [Token.same, Selector.same_self first, sameSelectors_self others]; rfl

theorem sameTokens_self : ∀ ts : List Token, sameTokens ts ts = true
  | [] => by rw [sameTokens]
  | t :: ts => by rw [sameTokens, Token.same_self t, sameTokens_self ts]; rfl

theorem sameSelectors_self : ∀ ss : List Selector, sameSelectors ss ss = true
  | [] => by rw [sameSelectors]
  | s :: ss => by rw [sameSelectors, Selector.same_self s, sameSelectors_self ss]; rfl

end

/-! ## Compiling a written path -/

theorem lexemes_text (p : Path) : ∃ ls, lexemes p.text = .ok ls ∧ ls.map Placed.lexeme = spellingAll p.tokens := by
  have hend : EndsName [] := fun c hc => by cases hc
  have hlexes := lexes_textAll p.tokens hend Lexes.nil
  rw [List.append_nil, List.append_nil] at hlexes
  exact hlexes 0

/-- A well-formed path is read back token for token. -/
theorem compile_text {p : Path} (hwf : p.isWellFormed = true) (h : ∀ i ∈ p.integers, ShortInteger i) :
    Path.compile p.text = .ok ⟨withoutSourcesAll p.tokens, some p.text⟩ := by
  obtain ⟨ls, hlex, hls⟩ := lexemes_text p
  obtain ⟨t, ht, htokens⟩ := Path.exists_tree hwf h
  rw [compile_of_derivation hlex (ht.trans hls.symm), htokens]

/-- What compiles is well-formed, its integers are short and its filters have no sources. -/
theorem isRead_of_compile {text : Text} {p : Path} (h : Path.compile text = .ok p) :
    p.isWellFormed = true ∧ (∀ i ∈ p.integers, ShortInteger i) ∧ withoutSourcesAll p.tokens = p.tokens := by
  obtain ⟨ls, t, _, _, rfl⟩ := derivation_of_compile h
  obtain ⟨hhead, htail⟩ := t.isRead
  refine ⟨?_, ?_, ?_⟩
  · exact Bool.and_eq_true_iff.2 ⟨hhead.wellFormed, htail.wellFormed⟩
  · exact List.forall_mem_append.2 ⟨hhead.short, htail.short⟩
  · rw [withoutSourcesAll, hhead.sourceless, htail.sourceless]

/-- A text without long numerals compiles or is malformed. -/
theorem compile_of_isShort {text : Text} {ls : List Placed} (hlex : lexemes text = .ok ls)
    (h : ∀ x ∈ ls.map Placed.lexeme, x.IsShort) :
    (∃ q, Path.compile text = .ok q) ∨ ∃ f, Path.compile text = .error (.malformed f) := by
  rw [Path.compile]
  split
  · exact Or.inr ⟨_, rfl⟩
  · rw [hlex]
    dsimp only
    cases hwhole : Parse.whole ls with
    | ok p => exact Or.inl ⟨_, rfl⟩
    | error e =>
      cases e with
      | fault f left => exact Or.inr ⟨_, rfl⟩
      | tooManyDigits k =>
        obtain ⟨n, hn, hinteger, hlong⟩ := Parse.whole_blames ls k hwhole
        exact absurd (h _ hn hinteger) (Nat.not_le.2 hlong)

/-- A path that is not well-formed is not read back. -/
theorem compile_text_ne {p : Path} (hwf : p.isWellFormed = false) (h : ∀ i ∈ p.integers, ShortInteger i) :
    (∃ f, Path.compile p.text = .error (.malformed f)) ∨ ∃ q, Path.compile p.text = .ok q ∧ q.same p = false := by
  obtain ⟨ls, hlex, hls⟩ := lexemes_text p
  have hshort : ∀ x ∈ ls.map Placed.lexeme, x.IsShort := by
    rw [hls]
    exact isShort_spellingAll p.tokens h
  rcases compile_of_isShort hlex hshort with ⟨q, hq⟩ | hmalformed
  · refine Or.inr ⟨q, hq, ?_⟩
    by_contra hsame
    have hq' := Path.isWellFormed_of_same (Bool.not_eq_false _ ▸ hsame : q.same p = true)
    rw [(isRead_of_compile hq).1, hwf] at hq'
    cases hq'
  · exact Or.inl hmalformed

/-- **Writing and compiling are inverse exactly on the well-formed paths.** A path with short integers compiles from
its text to its own tokens if it is well-formed, and to an error or another path if it is not. What compiles is
well-formed and compiles from its text again. -/
theorem compile_text_iff_wellFormed :
    (∀ p : Path, (∀ i ∈ p.integers, ShortInteger i) →
      (p.isWellFormed = true → Path.compile p.text = .ok ⟨withoutSourcesAll p.tokens, some p.text⟩) ∧
      (p.isWellFormed = false → (∃ f, Path.compile p.text = .error (.malformed f)) ∨
        ∃ q, Path.compile p.text = .ok q ∧ q.same p = false)) ∧
    ∀ (text : Text) (p : Path), Path.compile text = .ok p → p.isWellFormed = true ∧
      ∃ q, Path.compile p.text = .ok q ∧ q.tokens = p.tokens ∧ q.same p = true := by
  constructor
  · intro p h
    exact ⟨fun hwf => compile_text hwf h, fun hwf => compile_text_ne hwf h⟩
  · intro text p hp
    obtain ⟨hwf, hshort, hsources⟩ := isRead_of_compile hp
    refine ⟨hwf, _, compile_text hwf hshort, hsources, ?_⟩
    rw [Path.same, hsources]
    exact sameTokens_self p.tokens

/-- The index minus seven and all items compile back, a union of the index alone does not, and what the empty slice of
a text compiles to does. -/
theorem compile_text_iff_wellFormed_union :
    Path.compile (Path.text ⟨[.root, .union (.child (.index (-7))) [.wildcard]], none⟩) =
        .ok ⟨[.root, .union (.child (.index (-7))) [.wildcard]], some (chars ['$', '[', '-', '7', ',', '*', ']'])⟩ ∧
      ((∃ f, Path.compile (Path.text ⟨[.root, .union (.child (.index (-7))) []], none⟩) = .error (.malformed f)) ∨
        ∃ q, Path.compile (Path.text ⟨[.root, .union (.child (.index (-7))) []], none⟩) = .ok q ∧
          q.same ⟨[.root, .union (.child (.index (-7))) []], none⟩ = false) ∧
      ∃ q, Path.compile (Path.text ⟨[.select (.slice ⟨0, none, 1, Nat.one_pos⟩)], some (chars ['[', ':', ']'])⟩) =
          .ok q ∧
        q.tokens = [.select (.slice ⟨0, none, 1, Nat.one_pos⟩)] ∧
        q.same ⟨[.select (.slice ⟨0, none, 1, Nat.one_pos⟩)], some (chars ['[', ':', ']'])⟩ = true := by
  refine ⟨?_, ?_, ?_⟩
  · have htext : Path.text ⟨[.root, .union (.child (.index (-7))) [.wildcard]], none⟩ =
        chars ['$', '[', '-', '7', ',', '*', ']'] := by decide +kernel
    rw [← htext]
    exact (compile_text_iff_wellFormed.1 ⟨[.root, .union (.child (.index (-7))) [.wildcard]], none⟩
      (by decide +kernel)).1 (by decide)
  · exact (compile_text_iff_wellFormed.1 ⟨[.root, .union (.child (.index (-7))) []], none⟩
      (by decide +kernel)).2 (by decide)
  · have hlex : lexemes (chars ['[', ':', ']']) = .ok [⟨.leftBracket, 0⟩, ⟨.colon, 1⟩, ⟨.rightBracket, 2⟩] :=
      lexemesFrom_lexeme (by decide) rfl <| lexemesFrom_lexeme (by decide) rfl <|
        lexemesFrom_lexeme (by decide) rfl (lexemesFrom_nil _)
    exact (compile_text_iff_wellFormed.2 _ _
      (compile_of_derivation hlex (t := .bare (.brackets (.slice none none none) []) []) rfl)).2

end TreePath
