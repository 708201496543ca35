import TreePath.Proofs.Completeness

/-!
# The texts that compile

A text compiles if and only if its lexemes have a derivation, and then to the tokens of that one derivation
(`compile_iff_derivation`).
-/

namespace TreePath

theorem lexemesFrom_of_isBlank : ∀ (n : Nat) {s : Text}, s.isBlank → lexemesFrom n s = .ok []
  | n, [], _ => lexemesFrom_nil n
  | n, c :: s, h => by
    obtain ⟨hc, hs⟩ := Bool.and_eq_true_iff.1 (List.all_cons.symm.trans h)
    exact lexemesFrom_blank hc (lexemesFrom_of_isBlank (n + 1) hs)

theorem PathTree.lexemes_ne_nil : ∀ t : PathTree, t.lexemes ≠ []
  | .opened o ss => List.cons_ne_nil _ _
  | .bare s ss => by
    intro h
    exact s.not_noSegment (segmentLexemes ss) (by rw [← PathTree.lexemes, h]; exact noSegment_nil)

/-- The lexemes of a derivation compile to what it stands for. -/
theorem compile_of_derivation {text : Text} {ls : List Placed} (hlex : lexemes text = .ok ls) {t : PathTree}
    (h : t.lexemes = ls.map Placed.lexeme) : Path.compile text = .ok ⟨t.tokens.1 :: t.tokens.2, some text⟩ := by
  have hblank : ¬ text.isBlank := by
    intro hb
    cases hlex.symm.trans (lexemesFrom_of_isBlank 0 hb)
    exact t.lexemes_ne_nil h
  rw [Path.compile, if_neg hblank, hlex]
  dsimp only
  rw [Parse.whole_read h]

/-- What compiles has a derivation. -/
theorem derivation_of_compile {text : Text} {p : Path} (h : Path.compile text = .ok p) :
    ∃ (ls : List Placed) (t : PathTree), lexemes text = .ok ls ∧ t.lexemes = ls.map Placed.lexeme ∧
      p = ⟨t.tokens.1 :: t.tokens.2, some text⟩ := by
  unfold Path.compile at h
  split at h
  · cases h
  · split at h
    · cases h
    · rename_i ls hlex
      split at h
      · cases h
      · rename_i hwhole
        cases h
        obtain ⟨t, ht, htokens⟩ := Parse.whole_sound hwhole
        exact ⟨ls, t, hlex, ht, by rw [htokens]⟩

/-- **Compiling accepts the grammar and nothing else.** A text with lexemes compiles if and only if these have a
derivation. There is one derivation at most, and the path is what it stands for. -/
theorem compile_iff_derivation {text : Text} {ls : List Placed} (hlex : lexemes text = .ok ls) :
    ((∃ p, Path.compile text = .ok p) ↔ ∃ t : PathTree, t.lexemes = ls.map Placed.lexeme) ∧
      ∀ t : PathTree, t.lexemes = ls.map Placed.lexeme →
        Path.compile text = .ok ⟨t.tokens.1 :: t.tokens.2, some text⟩ ∧
          ∀ t' : PathTree, t'.lexemes = ls.map Placed.lexeme → t' = t := by
  refine ⟨⟨?_, ?_⟩, ?_⟩
  · rintro ⟨p, hp⟩
    obtain ⟨ls', t, hlex', ht, _⟩ := derivation_of_compile hp
    cases hlex.symm.trans hlex'
    exact ⟨t, ht⟩
  · rintro ⟨t, ht⟩
    exact ⟨_, compile_of_derivation hlex ht⟩
  · intro t ht
    exact ⟨compile_of_derivation hlex ht, fun t' ht' => PathTree.lexemes_injective (ht'.trans ht.symm)⟩

/-- The slice without bounds is one of two selectors, so they are a union. -/
theorem compile_iff_derivation_star_slice :
    Path.compile (chars ['$', '[', '*', ',', ' ', ':', ']']) =
      .ok ⟨[.root, .union .wildcard [.slice ⟨0, none, 1, Nat.one_pos⟩]],
        some (chars ['$', '[', '*', ',', ' ', ':', ']'])⟩ :=
  have hlex : lexemes (chars ['$', '[', '*', ',', ' ', ':', ']']) = .ok [⟨.root, 0⟩, ⟨.leftBracket, 1⟩, ⟨.star, 2⟩,
      ⟨.comma, 3⟩, ⟨.colon, 5⟩, ⟨.rightBracket, 6⟩] :=
    lexemesFrom_lexeme (by decide) rfl <| lexemesFrom_lexeme (by decide) rfl <| lexemesFrom_lexeme (by decide) rfl <|
      lexemesFrom_lexeme (by decide) rfl <| lexemesFrom_blank (by decide) <| lexemesFrom_lexeme (by decide) rfl <|
        lexemesFrom_lexeme (by decide) rfl (lexemesFrom_nil _)
  ((compile_iff_derivation hlex).2 (.opened .root [.brackets .star [.slice none none none]]) rfl).1

end TreePath
