import TreePath.Proofs.Derivation
import TreePath.Proofs.Positions
import TreePath.Proofs.Tiling

/-!
# Blanks between lexemes

Where no lexeme is cut apart, blanks can be put into a text without changing its lexemes (`lexemesFrom_spacedFrom`). So
a text with such blanks compiles to the same path, or has the same fault at the place to which its own one has moved
(`compile_spaced`).
-/

namespace TreePath

namespace Text

/-- The text with a gap in front of each code point and one at the end, where the first one is the gap `n`. -/
def spacedFrom (gap : Nat → Text) (n : Nat) : Text → Text
  | [] => gap n
  | c :: s => gap n ++ c :: spacedFrom gap (n + 1) s

/-- The text with the gap `i` in front of the code point at `i`. -/
def spaced (gap : Nat → Text) (s : Text) : Text := s.spacedFrom gap 0

/-- Nothing that is found in the text reaches over the place. -/
def IsBoundary (s : Text) (i : Nat) : Prop := ∀ x ∈ (scan s).1, ¬ (x.start < i ∧ i < x.stop)

end Text

/-- How much the gaps in front of `p` make up, without the one right in front. -/
def gapsBefore (gap : Nat → Text) (p : Nat) : Nat := ((List.range p).map fun i => (gap i).length).sum

/-- The place of the code point at `p` behind the gaps in front of it. -/
def shifted (gap : Nat → Text) (p : Nat) : Nat := p + gapsBefore gap (p + 1)

section

variable {gap : Nat → Text}

theorem gapsBefore_succ (p : Nat) : gapsBefore gap (p + 1) = gapsBefore gap p + (gap p).length := by
  simp [gapsBefore, List.range_succ]

theorem gapsBefore_add {n k : Nat} (h : ∀ i, n ≤ i → i < n + k → gap i = []) :
    gapsBefore gap (n + k) = gapsBefore gap n := by
  induction k with
  | zero => rfl
  | succ k ih =>
    rw [← Nat.add_assoc, gapsBefore_succ, h (n + k) (by omega) (by omega),
      ih fun i hi hik => h i hi (by omega), List.length_nil, Nat.add_zero]

/-! ## Texts with gaps -/

theorem length_spacedFrom (n : Nat) (s : Text) :
    n + gapsBefore gap n + (s.spacedFrom gap n).length = shifted gap (n + s.length) := by
  induction s generalizing n with
  | nil =>
    rw [Text.spacedFrom, shifted, List.length_nil, Nat.add_zero, gapsBefore_succ, Nat.add_assoc]
  | cons c s ih =>
    have hrest := ih (n + 1)
    have hend : n + (c :: s).length = n + 1 + s.length := by
      rw [List.length_cons]
      omega
    rw [gapsBefore_succ] at hrest
    rw [Text.spacedFrom, List.length_append, List.length_cons, hend, ← hrest]
    omega

theorem length_spaced (gap : Nat → Text) (s : Text) : (s.spaced gap).length = shifted gap s.length := by
  have hlength : 0 + gapsBefore gap 0 + (s.spacedFrom gap 0).length = shifted gap (0 + s.length) :=
    length_spacedFrom 0 s
  have hbefore : gapsBefore gap 0 = 0 := rfl
  rw [hbefore, Nat.zero_add, Nat.zero_add] at hlength
  exact hlength

theorem isBlank_append (s t : Text) : Text.isBlank (s ++ t) = (s.isBlank && t.isBlank) := List.all_append

theorem isBlank_spacedFrom (h : ∀ i, (gap i).isBlank = true) (n : Nat) (s : Text) :
    (s.spacedFrom gap n).isBlank = s.isBlank := by
  induction s generalizing n with
  | nil => exact h n
  | cons c s ih =>
    rw [Text.spacedFrom, isBlank_append, h n, Bool.true_and, Text.isBlank, Text.isBlank, List.all_cons, List.all_cons]
    exact congrArg (c.isBlank && ·) (ih (n + 1))

/-- Code points without gaps before them stay together. -/
theorem spacedFrom_eq_append {n k : Nat} {s : Text} (h : ∀ i, n ≤ i → i < n + k → gap i = []) (hk : k ≤ s.length) :
    s.spacedFrom gap n = s.take k ++ Text.spacedFrom gap (n + k) (s.drop k) := by
  induction k generalizing n s with
  | zero => rfl
  | succ k ih =>
    cases s with
    | nil => cases hk
    | cons c s =>
      have hrest := ih (n := n + 1) (s := s) (fun i hi hik => h i (by omega) (by omega)) (Nat.le_of_succ_le_succ hk)
      rw [Text.spacedFrom, h n (Nat.le_refl _) (by omega), hrest, Nat.add_assoc, Nat.add_comm 1]
      rfl

/-- With gaps of blanks a text goes on as without them, or up to a blank. -/
theorem spacedFrom_eq_or (h : ∀ i, (gap i).isBlank = true) (n : Nat) (s : Text) :
    s.spacedFrom gap n = s ∨ ∃ before behind b r, s = before ++ behind ∧ b.isBlank = true ∧
      s.spacedFrom gap n = before ++ b :: r := by
  have hgap : ∀ n, gap n = [] ∨ ∃ b g, b.isBlank = true ∧ gap n = b :: g := by
    intro n
    cases hn : gap n with
    | nil => exact .inl rfl
    | cons b g =>
      have hb := h n
      rw [hn] at hb
      exact .inr ⟨b, g, (Bool.and_eq_true_iff.1 (List.all_cons.symm.trans hb)).1, rfl⟩
  induction s generalizing n with
  | nil =>
    rcases hgap n with hn | ⟨b, g, hb, hn⟩
    · exact .inl hn
    · exact .inr ⟨[], [], b, g, rfl, hb, hn⟩
  | cons c s ih =>
    rw [Text.spacedFrom]
    rcases hgap n with hn | ⟨b, g, hb, hn⟩
    · rw [hn]
      rcases ih (n + 1) with hs | ⟨before, behind, b, r, hsplit, hb, hs⟩
      · rw [hs]
        exact .inl rfl
      · rw [hs, hsplit]
        exact .inr ⟨c :: before, behind, b, r, rfl, hb, rfl⟩
    · rw [hn]
      exact .inr ⟨[], c :: s, b, _, rfl, hb, rfl⟩

end

/-! ## Their lexemes -/

theorem lexemesFrom_blanks {gap : Text} (h : gap.isBlank = true) (n : Nat) (s : Text) :
    lexemesFrom n (gap ++ s) = lexemesFrom (n + gap.length) s := by
  induction gap generalizing n with
  | nil => rfl
  | cons c gap ih =>
    obtain ⟨hc, hgap⟩ := Bool.and_eq_true_iff.1 (List.all_cons.symm.trans h)
    rw [List.cons_append, lexemesFrom, if_pos hc, ih hgap, List.length_cons, Nat.add_assoc, Nat.add_comm 1]

/-- The lexeme at the start of a text is the same one with gaps of blanks behind it. -/
theorem leading_spacedFrom {gap : Nat → Text} (h : ∀ i, (gap i).isBlank = true) {c : CodePoint} {s : Text} {n k : Nat}
    {x : Lexeme} (hx : Lexeme.leading c s n = .ok (x, k)) (i m : Nat) :
    Lexeme.leading c (s.take k ++ Text.spacedFrom gap i (s.drop k)) m = .ok (x, k) := by
  have hk := Lexeme.leading_le hx
  have hlength : (s.take k).length = k := by
    rw [List.length_take]
    omega
  rcases spacedFrom_eq_or h i (s.drop k) with hs | ⟨before, behind, b, r, hsplit, hb, hs⟩
  · rw [hs, List.take_append_drop]
    exact Lexeme.leading_of_leading hx m
  · -- Up to the blank the text is the same, and the lexeme does not reach further.
    rw [← List.take_append_drop k s, hsplit, ← List.append_assoc] at hx
    have hcut := Lexeme.leading_of_append hx (by rw [List.length_append]; omega) m
    rw [hs, ← List.append_assoc]
    exact (Lexeme.leading_append_delimiter (CodePoint.isDelimiter_of_isBlank hb) hcut r m).1

/-- **Blanks that cut no lexeme apart** move the lexemes behind them and do nothing else. -/
theorem lexemesFrom_spacedFrom {gap : Nat → Text} (h : ∀ i, (gap i).isBlank = true) {n : Nat} {s : Text}
    {xs : List Span} (hs : scanFrom n s = (xs, none))
    (hgap : ∀ i, gap i ≠ [] → ∀ x ∈ xs, ¬ (x.start < i ∧ i < x.stop)) :
    lexemesFrom (n + gapsBefore gap n) (s.spacedFrom gap n) =
      .ok (Parse.relocated (shifted gap) (xs.map Span.placed)) := by
  have hnext : ∀ n, n + gapsBefore gap n + (gap n).length + 1 = n + 1 + gapsBefore gap (n + 1) := fun n => by
    rw [gapsBefore_succ]
    omega
  fun_induction scanFrom n s generalizing xs with
  | case1 n =>
    cases hs
    exact lexemesFrom_of_isBlank _ (h n)
  | case2 n c s hc ih =>
    rw [Text.spacedFrom, lexemesFrom_blanks (h n), lexemesFrom, if_pos hc, hnext, ih hs hgap]
  | case3 n c s hc e he => cases hs
  | case4 n c s hc x k hx ys fault hscan ih =>
    obtain ⟨rfl, rfl⟩ := Prod.mk.inj hs
    have hk := Lexeme.leading_le hx
    have hempty : ∀ i, n + 1 ≤ i → i < n + 1 + k → gap i = [] := by
      intro i hi hik
      by_contra hne
      exact hgap i hne _ (List.mem_cons_self ..) ⟨by dsimp only; omega, hik⟩
    have hdrop : (s.take k ++ Text.spacedFrom gap (n + 1 + k) (s.drop k)).drop k =
        Text.spacedFrom gap (n + 1 + k) (s.drop k) := List.drop_left' (by rw [List.length_take]; omega)
    have hrest := ih hscan fun i hi y hy => hgap i hi y (List.mem_cons_of_mem _ hy)
    have hplace : n + gapsBefore gap n + (gap n).length + 1 + k = n + 1 + k + gapsBefore gap (n + 1 + k) := by
      rw [hnext, gapsBefore_add hempty]
      omega
    rw [Text.spacedFrom, lexemesFrom_blanks (h n), spacedFrom_eq_append hempty hk, lexemesFrom, if_neg hc,
      leading_spacedFrom h hx]
    dsimp only
    rw [hdrop, hplace, hrest, Nat.add_assoc n, ← gapsBefore_succ]
    rfl

/-! ## What they compile to -/

/-- The place of a failure moves with the lexeme, and the end of the text with the text. -/
theorem toError_relocated {gap : Nat → Text} {text : Text} (failure : Parse.Failure) :
    (failure.relocated (shifted gap)).toError (text.spaced gap) = match failure.toError text with
      | .malformed e => .malformed ⟨e.fault, text.spaced gap, shifted gap e.position⟩
      | .tooManyDigits n => .tooManyDigits n := by
  cases failure with
  | tooManyDigits n => rfl
  | fault f left =>
    cases left with
    | cons x left => rfl
    | nil => exact congrArg (fun p => CompileError.malformed ⟨f, text.spaced gap, p⟩) (length_spaced gap text)

/-- **Blanks between lexemes do not matter.** Where blanks cut no lexeme of a text apart, the lexemes stay and move by
the blanks in front of them. The path that the text compiles to is the same but for its source, and a fault is the same
one, which moves with its place. -/
theorem compile_spaced {text : Text} {ls : List Placed} (hlex : lexemes text = .ok ls) {gap : Nat → Text}
    (hblank : ∀ i, (gap i).isBlank = true) (hgap : ∀ i, gap i ≠ [] → text.IsBoundary i) :
    lexemes (text.spaced gap) = .ok (ls.map (Placed.relocated (shifted gap))) ∧
      (text.spaced gap).length = shifted gap text.length ∧
      Path.compile (text.spaced gap) = match Path.compile text with
        | .ok p => .ok { p with source := some (text.spaced gap) }
        | .error (.malformed e) =>
          .error (.malformed ⟨e.fault, text.spaced gap, if text.isBlank then 0 else shifted gap e.position⟩)
        | .error (.tooManyDigits n) => .error (.tooManyDigits n) := by
  obtain ⟨xs, hscan, rfl⟩ := scanFrom_of_lexemesFrom hlex
  have hspaced : lexemes (text.spaced gap) = .ok (Parse.relocated (shifted gap) (xs.map Span.placed)) := by
    refine lexemesFrom_spacedFrom hblank hscan fun i hi x hx => hgap i hi x ?_
    rw [scan, hscan]
    exact hx
  refine ⟨hspaced, length_spaced gap text, ?_⟩
  · have hsame : (text.spaced gap).isBlank = text.isBlank := isBlank_spacedFrom hblank 0 text
    rw [Path.compile, Path.compile, hsame]
    by_cases htext : text.isBlank = true
    · simp only [if_pos htext]
    · simp only [if_neg htext, hlex, hspaced, Parse.whole_relocated]
      cases Parse.whole (xs.map Span.placed) with
      | ok p => rfl
      | error failure =>
        show Except.error _ = _
        rw [toError_relocated]
        dsimp only
        cases failure.toError text <;> rfl

/-- A space and a line break around two points, which stay together. -/
theorem compile_spaced_descent :
    lexemes (chars ['$', ' ', '.', '.', '\n', 'a']) = .ok [⟨.root, 0⟩, ⟨.dots, 2⟩, ⟨.name 'a' [], 5⟩] ∧
      Path.compile (chars ['$', ' ', '.', '.', '\n', 'a']) =
        .ok ⟨[.root, .descend (chars ['a']) (List.cons_ne_nil _ _)],
          some (chars ['$', ' ', '.', '.', '\n', 'a'])⟩ := by
  have hscan : scan (chars ['$', '.', '.', 'a']) =
      ([⟨.root, 0, 1⟩, ⟨.dots, 1, 3⟩, ⟨.name 'a' [], 3, 4⟩], none) :=
    scanFrom_lexeme (k := 0) (by decide) rfl <| scanFrom_lexeme (k := 1) (by decide) rfl <|
      scanFrom_lexeme (k := 0) (by decide) rfl (scanFrom_nil 4)
  have hlex := lexemesFrom_of_scanFrom hscan
  have hcompile : Path.compile (chars ['$', '.', '.', 'a']) =
      .ok ⟨[.root, .descend (chars ['a']) (List.cons_ne_nil _ _)], some (chars ['$', '.', '.', 'a'])⟩ :=
    compile_of_derivation hlex (t := .opened .root [.descent 'a' []]) rfl
  have hspaced := @compile_spaced _ _ hlex
    (fun i => if i = 1 then chars [' '] else if i = 3 then chars ['\n'] else [])
    (fun i => by
      by_cases h : i = 1
      · simp only [if_pos h]
        rfl
      · simp only [if_neg h]
        split <;> rfl)
    (fun i hi x hx => by
      rw [hscan] at hx
      have hplace : i = 1 ∨ i = 3 := by
        by_contra hne
        simp_all
      simp only [List.mem_cons, List.not_mem_nil, or_false] at hx
      rcases hx with rfl | rfl | rfl <;> (dsimp only; omega))
  rw [hcompile] at hspaced
  exact ⟨hspaced.1, hspaced.2.2⟩

end TreePath
