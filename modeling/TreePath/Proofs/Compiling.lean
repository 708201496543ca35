import TreePath.Proofs.CheckedReading

/-!
# What compiling a text amounts to

Every text compiles to a path that is not empty and keeps the text, or is malformed at a place of the text, or holds an
integer with more digits than are read (`compile_outcome`). Nothing else stops a reader that makes every check: the
checks that are made while reading are passed.
-/

namespace TreePath

/-- What compiles keeps its text and is not empty. -/
theorem source_of_compile {text : Text} {p : Path} (h : Path.compile text = .ok p) :
    p.tokens ≠ [] ∧ p.source = some text := by
  unfold Path.compile at h
  split at h
  · cases h
  · split at h
    · cases h
    · split at h
      · cases h
      · cases h
        exact ⟨List.cons_ne_nil _ _, rfl⟩

/-- The place of a fault is in the text, or its end. -/
theorem position_of_compile {text : Text} {e : SyntaxError} (h : Path.compile text = .error (.malformed e)) :
    e.expression = text ∧ e.position ≤ text.length := by
  unfold Path.compile at h
  split at h
  · cases h
    exact ⟨rfl, Nat.zero_le _⟩
  · split at h
    · rename_i fault place hlexemes
      cases h
      have hplace := lexemesFrom_place hlexemes
      exact ⟨rfl, by dsimp only; omega⟩
    · rename_i ls hlexemes
      split at h
      · rename_i failure hwhole
        have hwithin := Parse.whole_within hwhole
        cases failure with
        | tooManyDigits k => cases h
        | fault f left =>
          cases h
          refine ⟨rfl, ?_⟩
          cases left with
          | nil => exact Nat.le_refl _
          | cons x left =>
            have hx := lexemesFrom_position hlexemes x (hwithin.subset List.mem_cons_self)
            change x.position ≤ text.length
            omega
      · cases h

/-- Only a numeral in the text that is too long to be read exceeds the limit on digits. -/
theorem numeral_of_compile {text : Text} {k : Nat} (h : Path.compile text = .error (.tooManyDigits k)) :
    ∃ ls n, lexemes text = .ok ls ∧ Lexeme.number n ∈ ls.map Placed.lexeme ∧ n.text <:+: text ∧
      n.isInteger = true ∧ n.whole.length = k ∧ Parse.digitLimit < k := by
  unfold Path.compile at h
  split at h
  · cases h
  · split at h
    · cases h
    · rename_i ls hlexemes
      split at h
      · rename_i failure hwhole
        have hwithin := Parse.whole_within hwhole
        cases failure with
        | fault f left => cases h
        | tooManyDigits k =>
          cases h
          obtain ⟨n, hn, hrest⟩ := hwithin
          exact ⟨ls, n, hlexemes, hn, (lexemesFrom_number hlexemes hn).2, hrest⟩
      · cases h

/-- **Compiling a text** gives a path that is not empty and keeps the text, or a fault at a place of the text, or the
length of an integer numeral in the text that is too long to be read. The reader that makes every check gives the same
and has no defect. -/
theorem compile_outcome (text : Text) :
    (match Path.compile text with
      | .ok p => p.tokens ≠ [] ∧ p.source = some text
      | .error (.malformed e) => e.expression = text ∧ e.position ≤ text.length
      | .error (.tooManyDigits k) => ∃ ls n, lexemes text = .ok ls ∧ Lexeme.number n ∈ ls.map Placed.lexeme ∧
          n.text <:+: text ∧ n.isInteger = true ∧ n.whole.length = k ∧ 4300 < k) ∧
      Checked.compile text = (Path.compile text).mapError CompileError.stop ∧
      ∀ d, Checked.compile text ≠ .error (.defect d) := by
  have heq := Checked.compile_eq text
  cases h : Path.compile text with
  | ok p =>
    rw [h] at heq
    exact ⟨source_of_compile h, heq, fun d hd => by rw [heq] at hd; cases hd⟩
  | error e =>
    rw [h] at heq
    cases e with
    | malformed e => exact ⟨position_of_compile h, heq, fun d hd => by rw [heq] at hd; cases hd⟩
    | tooManyDigits k => exact ⟨numeral_of_compile h, heq, fun d hd => by rw [heq] at hd; cases hd⟩

end TreePath
