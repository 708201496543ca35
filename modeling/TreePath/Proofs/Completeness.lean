import TreePath.Proofs.Soundness

/-!
# What has a derivation is read

The lexemes of a tree are read as what it stands for, whatever lexemes follow that cannot go on with the tree
(`Reads`). The proof is an induction on the tree, with one case for each production of the grammar (`PathTree.read`,
`SelectorTree.read`).
-/

namespace TreePath

namespace Parse

/-- Off the lexemes `xs` and then `r`, the reading function `f` gives `x` and leaves those of `r`. -/
def Reads {α : Type} (f : List Placed → Except Failure (α × List Placed)) (xs : List Lexeme) (x : α)
    (r : List Lexeme) : Prop :=
  ∀ ls, ls.map Placed.lexeme = xs ++ r → ∃ left, f ls = .ok (x, left) ∧ left.map Placed.lexeme = r

theorem placed_of_map_eq_cons {ls : List Placed} {x : Lexeme} {r : List Lexeme}
    (h : ls.map Placed.lexeme = x :: r) : ∃ p ls', ls = ⟨x, p⟩ :: ls' ∧ ls'.map Placed.lexeme = r := by
  obtain ⟨⟨_, p⟩, ls', rfl, rfl, hls'⟩ := List.map_eq_cons_iff.1 h
  exact ⟨p, ls', rfl, hls'⟩

/-! ## Literals, numbers and keys -/

theorem literal_read (t : LiteralTree) (r : List Lexeme) :
    Reads (fun ls => plain (literal ls)) [t.lexeme] t.literal r := by
  intro ls hls
  obtain ⟨p, left, rfl, hleft⟩ := placed_of_map_eq_cons hls
  refine ⟨left, ?_, hleft⟩
  have of_number : ∀ n, t.lexeme = .number n → plain (literal (⟨t.lexeme, p⟩ :: left)) = .ok (t.literal, left) := by
    intro n hn
    rw [hn, plain_literal]
    dsimp only
    rw [numberLiteral_eq_ok.2 ⟨t, hn, rfl⟩]
    rfl
  cases t with
  | integer n => exact of_number _ rfl
  | float n _ _ => exact of_number _ rfl
  | string s => exact plain_literal _
  | bool b => cases b <;> exact plain_literal _
  | null => exact plain_literal _

theorem optionalInteger_read (n : Option IntegerNumeral) {r : List Lexeme} (hr : ∀ m, r.head? ≠ some (.number m)) :
    Reads (fun ls => plain (optionalInteger ls)) (boundLexemes n) (n.map IntegerNumeral.value) r := by
  intro ls hls
  cases n with
  | none =>
    refine ⟨ls, ?_, hls⟩
    dsimp only
    rw [plain_optionalInteger]
    split
    · rename_i m _ _
      exact absurd (by rw [← show _ = r from hls]; rfl) (hr m)
    · rfl
  | some n =>
    obtain ⟨p, left, rfl, hleft⟩ := placed_of_map_eq_cons hls
    refine ⟨left, ?_, hleft⟩
    dsimp only
    rw [plain_optionalInteger]
    dsimp only [IntegerNumeral.lexeme]
    rw [integer_eq_ok.2 ⟨n, rfl, rfl⟩]
    rfl

theorem sliceFrom_read (first last : Option IntegerNumeral) (step : Option (Option PositiveNumeral)) {r : List Lexeme}
    (hr : EndsSelector r) : Reads (fun ls => plain (sliceFrom (first.map IntegerNumeral.value) ls))
      (boundLexemes last ++ stepLexemes step) (sliceOf first last step) r := by
  intro ls hls
  rw [List.append_assoc] at hls
  obtain ⟨mid, hmid, hstep⟩ := optionalInteger_read last (stepLexemes_ne_number hr) ls hls
  dsimp only at hmid ⊢
  rw [plain_sliceFrom, hmid]
  simp only [bind, Except.bind]
  match step with
  | none =>
    refine ⟨mid, ?_, hstep⟩
    split
    · exact absurd (by rw [← show _ = r from hstep]; rfl) hr.ne_colon
    · exact absurd (by rw [← show _ = r from hstep]; rfl) hr.ne_colon
    · rfl
  | some none =>
    obtain ⟨p, left, rfl, hleft⟩ := placed_of_map_eq_cons hstep
    refine ⟨left, ?_, hleft⟩
    split
    · rename_i n _ _ h
      cases h
      exact absurd (by rw [← show _ = r from hleft]; rfl) (hr.ne_number n)
    · rename_i h
      cases h
      rfl
    · rename_i h
      exact (h _ _ rfl).elim
  | some (some n) =>
    obtain ⟨p, mid', rfl, hnumber⟩ := placed_of_map_eq_cons hstep
    obtain ⟨q, left, rfl, hleft⟩ := placed_of_map_eq_cons hnumber
    refine ⟨left, ?_, hleft⟩
    dsimp only [IntegerNumeral.lexeme]
    have hpos : 0 < n.value.toNat := by have : 0 < n.value := n.pos; omega
    rw [positive_eq_ok (k := ⟨n.value.toNat, hpos⟩).2 ⟨n, rfl, rfl⟩]
    rfl

theorem index_read (n : IntegerNumeral) {r : List Lexeme} (hr : EndsSelector r) :
    Reads (fun ls => plain (position ls)) (SelectorTree.index n).lexemes (SelectorTree.index n).selector r := by
  intro ls hls
  obtain ⟨left, hn, hleft⟩ := optionalInteger_read (some n) hr.ne_number ls hls
  refine ⟨left, ?_, hleft⟩
  dsimp only at hn ⊢
  rw [plain_position, hn]
  simp only [bind, Except.bind]
  split
  · exact absurd (by rw [← show _ = r from hleft]; rfl) hr.ne_colon
  · rfl

theorem slice_read (first last : Option IntegerNumeral) (step : Option (Option PositiveNumeral)) {r : List Lexeme}
    (hr : EndsSelector r) : Reads (fun ls => plain (position ls)) (SelectorTree.slice first last step).lexemes
      (SelectorTree.slice first last step).selector r := by
  intro ls hls
  simp only [SelectorTree.lexemes, List.append_assoc, List.cons_append] at hls
  obtain ⟨mid, hfirst, hmid⟩ := optionalInteger_read first (by simp) ls hls
  obtain ⟨p, mid', rfl, hmid'⟩ := placed_of_map_eq_cons hmid
  obtain ⟨left, hbounds, hleft⟩ := sliceFrom_read first last step hr mid' (by rw [hmid', List.append_assoc])
  refine ⟨left, ?_, hleft⟩
  dsimp only at hfirst hbounds ⊢
  rw [plain_position, hfirst]
  simp only [bind, Except.bind]
  rw [hbounds]
  rfl

/-- A selector that starts with neither a star, a question mark nor a text is an index or a slice. -/
theorem selector_eq_position {ls : List Placed} {xs : List Lexeme} (hls : ls.map Placed.lexeme = xs)
    (hxs : (∃ n, xs.head? = some (.number n)) ∨ xs.head? = some .colon) :
    plain (selector ls) = plain (position ls) := by
  subst hls
  rw [plain_selector]
  split <;> simp at hxs
  rfl

theorem descentKey_read (key : Text) (key_ne : key ≠ []) (r : List Lexeme) :
    Reads (fun ls => plain (descentKey ls)) [.string key, .rightBracket] ⟨key, key_ne⟩ r := by
  intro ls hls
  obtain ⟨p, mid, rfl, hmid⟩ := placed_of_map_eq_cons hls
  obtain ⟨q, left, rfl, hleft⟩ := placed_of_map_eq_cons hmid
  refine ⟨left, ?_, hleft⟩
  dsimp only
  rw [plain_descentKey]
  dsimp only
  rw [dif_pos key_ne]

/-! ## Paths, segments and selectors -/

/-- The segments `ss` behind the segment `s`, once `s` was read. -/
theorem map_segments {s : Token} {ss : List SegmentTree} {mid left : List Placed}
    (h : plain (segments mid) = .ok (segmentTokens ss, left)) :
    (plain (segments mid)).map (fun y => (s :: y.1, y.2)) = .ok (s :: segmentTokens ss, left) := by
  rw [h]
  rfl

mutual

theorem PathTree.read : ∀ (t : PathTree) {r : List Lexeme}, NoSegment r →
    Reads (fun ls => plain (path ls)) t.lexemes t.tokens r
  | .opened o ss, r, hr, ls, hls => by
    obtain ⟨p, mid, rfl, hmid⟩ := placed_of_map_eq_cons hls
    obtain ⟨left, hss, hleft⟩ := segments_read ss hr mid hmid
    refine ⟨left, ?_, hleft⟩
    dsimp only at hss ⊢
    rw [plain_path]
    cases o <;> (dsimp only [Opening.lexeme]; rw [hss]; rfl)
  | .bare s ss, r, hr, ls, hls => by
    have hls' : ls.map Placed.lexeme = segmentLexemes (s :: ss) ++ r := hls
    obtain ⟨left, hss, hleft⟩ := segments_read (s :: ss) hr ls hls'
    refine ⟨left, ?_, hleft⟩
    dsimp only at hss ⊢
    rw [plain_path]
    -- The lexemes start with a segment, so they do not start with an opening.
    have hbare : ¬ NoSegment (ls.map Placed.lexeme) := by
      rw [hls', segmentLexemes, List.append_assoc]
      exact s.not_noSegment _
    split
    · exact absurd (Opening.root.noSegment _) hbare
    · exact absurd (Opening.current.noSegment _) hbare
    · exact absurd ((Opening.name _ _).noSegment _) hbare
    · rw [hss]
      rfl

theorem segments_read : ∀ (ss : List SegmentTree) {r : List Lexeme}, NoSegment r →
    Reads (fun ls => plain (segments ls)) (segmentLexemes ss) (segmentTokens ss) r
  | [], r, hr, ls, hls => by
    refine ⟨ls, ?_, hls⟩
    have hhead := hr
    rw [← show ls.map Placed.lexeme = r from hls] at hhead
    dsimp only
    rw [plain_segments]
    split <;> first | rfl | simp [NoSegment] at hhead
  | .star :: ss, r, hr, ls, hls => by
    obtain ⟨p, mid, rfl, hmid⟩ := placed_of_map_eq_cons hls
    obtain ⟨q, mid', rfl, hmid'⟩ := placed_of_map_eq_cons hmid
    obtain ⟨left, hss, hleft⟩ := segments_read ss hr mid' hmid'
    exact ⟨left, (plain_segments _).trans (map_segments hss), hleft⟩
  | .name c s :: ss, r, hr, ls, hls => by
    obtain ⟨p, mid, rfl, hmid⟩ := placed_of_map_eq_cons hls
    obtain ⟨q, mid', rfl, hmid'⟩ := placed_of_map_eq_cons hmid
    obtain ⟨left, hss, hleft⟩ := segments_read ss hr mid' hmid'
    exact ⟨left, (plain_segments _).trans (map_segments hss), hleft⟩
  | .descent c s :: ss, r, hr, ls, hls => by
    obtain ⟨p, mid, rfl, hmid⟩ := placed_of_map_eq_cons hls
    obtain ⟨q, mid', rfl, hmid'⟩ := placed_of_map_eq_cons hmid
    obtain ⟨left, hss, hleft⟩ := segments_read ss hr mid' hmid'
    exact ⟨left, (plain_segments _).trans (map_segments hss), hleft⟩
  | .quotedDescent key key_ne :: ss, r, hr, ls, hls => by
    obtain ⟨p, mid, rfl, hmid⟩ := placed_of_map_eq_cons hls
    obtain ⟨q, mid₁, rfl, hmid₁⟩ := placed_of_map_eq_cons hmid
    obtain ⟨mid₂, hkey, hmid₂⟩ := descentKey_read key key_ne (segmentLexemes ss ++ r) mid₁ hmid₁
    obtain ⟨left, hss, hleft⟩ := segments_read ss hr mid₂ hmid₂
    refine ⟨left, ?_, hleft⟩
    dsimp only at hkey ⊢
    rw [plain_segments]
    dsimp only
    rw [hkey, segmentTokens, SegmentTree.token, ← map_segments hss]
    rfl
  | .brackets first others :: ss, r, hr, ls, hls => by
    simp only [segmentLexemes, SegmentTree.lexemes, List.append_assoc, List.cons_append, List.nil_append] at hls
    obtain ⟨p, mid, rfl, hmid⟩ := placed_of_map_eq_cons hls
    obtain ⟨mid₁, hfirst, hmid₁⟩ := SelectorTree.read first (selectorLexemes_endsSelector _ _) mid hmid
    obtain ⟨mid₂, hothers, hmid₂⟩ := selectors_read others mid₁ hmid₁
    obtain ⟨q, mid₃, rfl, hmid₃⟩ := placed_of_map_eq_cons hmid₂
    obtain ⟨left, hss, hleft⟩ := segments_read ss hr mid₃ hmid₃
    refine ⟨left, ?_, hleft⟩
    dsimp only at hfirst hothers ⊢
    rw [plain_segments]
    simp only [bind, Except.bind, hfirst, hothers]
    rw [segmentTokens, SegmentTree.token, ← map_segments hss]
    cases others <;> rfl

theorem selectors_read : ∀ (ss : List SelectorTree) {r : List Lexeme},
    Reads (fun ls => plain (selectors ls)) (selectorLexemes ss) (selectorsOf ss) (.rightBracket :: r)
  | [], r, ls, hls => by
    obtain ⟨p, left, rfl, hleft⟩ := placed_of_map_eq_cons hls
    exact ⟨_, plain_selectors _, hls⟩
  | s :: ss, r, ls, hls => by
    simp only [selectorLexemes, List.append_assoc, List.cons_append] at hls
    obtain ⟨p, mid, rfl, hmid⟩ := placed_of_map_eq_cons hls
    obtain ⟨mid₁, hs, hmid₁⟩ := SelectorTree.read s (selectorLexemes_endsSelector _ _) mid hmid
    obtain ⟨left, hss, hleft⟩ := selectors_read ss mid₁ hmid₁
    refine ⟨left, ?_, hleft⟩
    dsimp only at hs hss ⊢
    rw [plain_selectors]
    simp only [bind, Except.bind, hs, hss]
    rfl

theorem SelectorTree.read : ∀ (s : SelectorTree) {r : List Lexeme}, EndsSelector r →
    Reads (fun ls => plain (selector ls)) s.lexemes s.selector r
  | .star, r, hr, ls, hls => by
    obtain ⟨p, left, rfl, hleft⟩ := placed_of_map_eq_cons hls
    exact ⟨left, plain_selector _, hleft⟩
  | .key k, r, hr, ls, hls => by
    obtain ⟨p, left, rfl, hleft⟩ := placed_of_map_eq_cons hls
    exact ⟨left, plain_selector _, hleft⟩
  | .index n, r, hr, ls, hls => by
    obtain ⟨left, hn, hleft⟩ := index_read n hr ls hls
    exact ⟨left, (selector_eq_position hls (Or.inl ⟨n.numeral, rfl⟩)).trans hn, hleft⟩
  | .slice first last step, r, hr, ls, hls => by
    obtain ⟨left, hbounds, hleft⟩ := slice_read first last step hr ls hls
    refine ⟨left, (selector_eq_position hls ?_).trans hbounds, hleft⟩
    cases first with
    | none => exact Or.inr rfl
    | some n => exact Or.inl ⟨n.numeral, rfl⟩
  | .filter path op literal, r, hr, ls, hls => by
    simp only [SelectorTree.lexemes, List.append_assoc, List.cons_append, List.nil_append] at hls
    obtain ⟨p, mid, rfl, hmid⟩ := placed_of_map_eq_cons hls
    obtain ⟨q, mid₁, rfl, hmid₁⟩ := placed_of_map_eq_cons hmid
    obtain ⟨mid₂, hpath, hmid₂⟩ := PathTree.read path (noSegment_operator _ _) mid₁ hmid₁
    obtain ⟨p', mid₃, rfl, hmid₃⟩ := placed_of_map_eq_cons hmid₂
    obtain ⟨mid₄, hliteral, hmid₄⟩ := literal_read literal (.rightParen :: r) mid₃ hmid₃
    obtain ⟨q', left, rfl, hleft⟩ := placed_of_map_eq_cons hmid₄
    refine ⟨left, ?_, hleft⟩
    dsimp only at hpath hliteral ⊢
    rw [plain_selector]
    simp only [bind, Except.bind, hpath, hliteral]
    rfl

end

/-- The lexemes of a derivation are read as what it stands for. -/
theorem whole_read {ls : List Placed} {t : PathTree} (h : t.lexemes = ls.map Placed.lexeme) :
    whole ls = .ok t.tokens := by
  obtain ⟨left, hpath, hleft⟩ := PathTree.read t noSegment_nil ls (by rw [← h, List.append_nil])
  cases List.map_eq_nil_iff.1 hleft
  dsimp only at hpath
  rw [whole_eq, hpath]
  rfl

end Parse

end TreePath
