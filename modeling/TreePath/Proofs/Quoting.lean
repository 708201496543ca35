import TreePath.Proofs.Tiling

/-!
# Quoting a text

The quoted form of a text is made by replacements, one after the other (`Text.replaced_eq`). Whatever stands behind it, it
is read as one string (`scanFrom_quoted`), so different texts have quoted forms of which none starts with another
(`quoted_undone`).
-/

namespace TreePath

/-! ## Replacements -/

namespace Text

/-- The text with `new` in place of each code point `old`. -/
def replace (s : Text) (old : CodePoint) (new : Text) : Text := s.flatMap fun c => if c = old then new else [c]

theorem replace_nil (old : CodePoint) (new : Text) : replace [] old new = [] := rfl

theorem replace_append (s t : Text) (old : CodePoint) (new : Text) :
    replace (s ++ t) old new = replace s old new ++ replace t old new := List.flatMap_append

theorem replace_of_ne {c old : CodePoint} (h : c ≠ old) (new : Text) : replace [c] old new = [c] := by
  rw [replace, List.flatMap_singleton, if_neg h]

/-- The body of a quoted text, with the replacements in their order: the first one is of the backslashes that stand in
the text, and the others write backslashes that stay. -/
def replaced (s : Text) : Text :=
  ((((s.replace '\\' (chars ['\\', '\\'])).replace '\'' (chars ['\\', '\''])).replace '\n' (chars ['\\', 'n'])).replace
    '\r' (chars ['\\', 'r'])).replace '\t' (chars ['\\', 't'])

theorem replaced_append (s t : Text) : replaced (s ++ t) = replaced s ++ replaced t := by
  simp only [replaced, replace_append]

theorem replaced_singleton (c : CodePoint) : replaced [c] = quotedPoint c := by
  by_cases hbackslash : c = '\\'
  · rw [hbackslash]
    decide
  by_cases hquote : c = '\''
  · rw [hquote]
    decide
  by_cases hfeed : c = '\n'
  · rw [hfeed]
    decide
  by_cases hreturn : c = '\r'
  · rw [hreturn]
    decide
  by_cases htab : c = '\t'
  · rw [htab]
    decide
  have hlookup : writtenEscapes.lookup c = none := by
    simp [writtenEscapes, List.lookup_eq_none_iff, *]
  rw [quotedPoint, hlookup, replaced, replace_of_ne hbackslash, replace_of_ne hquote, replace_of_ne hfeed,
    replace_of_ne hreturn, replace_of_ne htab]

/-- The five replacements one after the other are one replacement of each code point. -/
theorem replaced_eq (s : Text) : s.replaced = s.flatMap quotedPoint := by
  induction s with
  | nil => simp only [replaced, replace_nil, List.flatMap_nil]
  | cons c s ih =>
    rw [← List.singleton_append, replaced_append, replaced_singleton, ih, List.singleton_append, List.flatMap_cons]

end Text

/-! ## Reading back -/

/-- **A quoted text is read as one string**, whatever follows it. -/
theorem scanFrom_quoted (n : Nat) (s t : Text) :
    scanFrom n (s.quoted ++ t) =
      (⟨.string s, n, n + s.quoted.length⟩ :: (scanFrom (n + s.quoted.length) t).1,
        (scanFrom (n + s.quoted.length) t).2) := by
  have hlength : n + 1 + (s.flatMap quotedPoint ++ chars ['\'']).length = n + s.quoted.length := by
    simp only [Text.quoted, chars, List.map_cons, List.map_nil, List.length_append, List.length_singleton]
    omega
  show scanFrom n (CodePoint.ofChar '\'' :: ((s.flatMap quotedPoint ++ chars ['\'']) ++ t)) = _
  rw [← hlength]
  refine scanFrom_lexeme (by decide) (leading_quoted s t n) ?_
  rw [List.drop_left]

/-- No quoted text starts with another one. -/
theorem eq_of_isPrefix_quoted {s s' : Text} (h : s.quoted <+: s'.quoted) : s = s' := by
  obtain ⟨t, ht⟩ := h
  have hscan := scanFrom_quoted 0 s' []
  rw [List.append_nil, ← ht, scanFrom_quoted] at hscan
  obtain ⟨hspan, _⟩ := List.cons.inj (Prod.mk.inj hscan).1
  exact Lexeme.string.inj (Span.mk.inj hspan).1

/-- **Lexing undoes quoting** in front of any text. What the replacements make of a text is read, in its quotes, as one
string for this text that goes as far as the quotes do, and then what follows is read. So different texts have different
quoted forms, and none of these starts with another. -/
theorem quoted_undone (s t : Text) (n : Nat) :
    s.quoted = chars ['\''] ++ s.replaced ++ chars ['\''] ∧
    scanFrom n (s.quoted ++ t) =
      (⟨.string s, n, n + s.quoted.length⟩ :: (scanFrom (n + s.quoted.length) t).1,
        (scanFrom (n + s.quoted.length) t).2) ∧
    lexemesFrom n (s.quoted ++ t) = (lexemesFrom (n + s.quoted.length) t).map (⟨.string s, n⟩ :: ·) ∧
    ∀ s' : Text, (s.quoted = s'.quoted ↔ s = s') ∧ (s.quoted <+: s'.quoted ↔ s.quoted = s'.quoted) := by
  refine ⟨?_, scanFrom_quoted n s t, ?_, fun s' => ⟨⟨fun h => ?_, ?_⟩, ⟨fun h => ?_, ?_⟩⟩⟩
  · rw [Text.replaced_eq]
    rfl
  · rw [lexemesFrom_eq_scanFrom, scanFrom_quoted, lexemesFrom_eq_scanFrom]
    obtain ⟨xs, fault⟩ := scanFrom (n + s.quoted.length) t
    cases fault with
    | none => rfl
    | some e => rfl
  · exact eq_of_isPrefix_quoted (h ▸ List.prefix_refl _)
  · rintro rfl
    rfl
  · rw [eq_of_isPrefix_quoted h]
  · intro h
    rw [h]

end TreePath
