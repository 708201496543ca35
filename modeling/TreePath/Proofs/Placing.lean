import Mathlib.Data.List.TakeWhile
import TreePath.Proofs.Lexing
import TreePath.Proofs.Reading

/-!
# What lexing takes from a text

* The pieces of a quoted text are the code points before the closing quote (`pieces?_eq_some`).
* A numeral at the start of a text is one that can be written, and the text starts with it (`Numeral.leading?_eq_some`);
  all numerals among the lexemes of a text stand in it like this (`lexemesFrom_number`).
* Lexemes and lexical faults have their place inside the text (`lexemesFrom_position`, `lexemesFrom_place`).
-/

namespace TreePath

/-! ## Pieces -/

def Piece.text : Piece → Text
  | .plain c => [c]
  | .escape c => chars ['\\'] ++ [c]

/-- The code points that pieces were split from. -/
def Piece.source (ps : List Piece) : Text := ps.flatMap Piece.text

/-- The piece does not close a text in the quotes `q`, and does not escape what follows it. -/
def Piece.IsOpen (q : CodePoint) : Piece → Prop
  | .plain c => c ≠ q ∧ c ≠ '\\'
  | .escape _ => True

theorem Piece.width_eq_length (ps : List Piece) : ps.foldr (fun p k => p.width + k) 0 = (source ps).length := by
  induction ps with
  | nil => rfl
  | cons p ps ih =>
    have hwidth : p.width = p.text.length := by
      cases p with
      | plain c => rfl
      | escape c => rfl
    rw [List.foldr_cons, ih, hwidth, source, source, List.flatMap_cons, List.length_append]

theorem pieces?_eq_some {q : CodePoint} {escaping : Bool} {s r : Text} {ps : List Piece}
    (h : pieces? q escaping s = some (ps, r)) :
    (if escaping then chars ['\\'] else []) ++ s = Piece.source ps ++ q :: r ∧ ∀ p ∈ ps, p.IsOpen q := by
  induction s generalizing escaping ps with
  | nil => cases escaping <;> cases h
  | cons c s ih =>
    cases escaping with
    | true =>
      rw [pieces?] at h
      obtain ⟨⟨ps, r⟩, hs, h⟩ := Option.map_eq_some_iff.1 h
      cases h
      obtain ⟨hsource, hopen⟩ := ih hs
      refine ⟨?_, ?_⟩
      · exact congrArg (chars ['\\'] ++ c :: ·) hsource
      · exact List.forall_mem_cons.2 ⟨trivial, hopen⟩
    | false =>
      rw [pieces?] at h
      split at h
      · rename_i hquote
        cases h
        exact ⟨congrArg (· :: _) hquote, fun p hp => by cases hp⟩
      · rename_i hquote
        split at h
        · rename_i hbackslash
          rw [hbackslash]
          exact ih h
        · rename_i hbackslash
          obtain ⟨⟨ps, r⟩, hs, h⟩ := Option.map_eq_some_iff.1 h
          cases h
          obtain ⟨hsource, hopen⟩ := ih hs
          refine ⟨?_, ?_⟩
          · exact congrArg (c :: ·) hsource
          · exact List.forall_mem_cons.2 ⟨⟨hquote, hbackslash⟩, hopen⟩

/-- Pieces are split off as they were put together. -/
theorem pieces?_source {q : CodePoint} (hq : q ≠ '\\') {ps : List Piece} (h : ∀ p ∈ ps, p.IsOpen q) (r : Text) :
    pieces? q false (Piece.source ps ++ q :: r) = some (ps, r) := by
  induction ps with
  | nil => exact if_pos rfl
  | cons p ps ih =>
    obtain ⟨hp, hps⟩ := List.forall_mem_cons.1 h
    have hrest := ih hps
    rw [Piece.source, List.flatMap_cons, List.append_assoc, ← Piece.source]
    cases p with
    | plain c =>
      show pieces? q false (c :: (Piece.source ps ++ q :: r)) = _
      rw [pieces?, if_neg hp.1, if_neg hp.2, hrest]
      rfl
    | escape c =>
      show pieces? q false (CodePoint.ofChar '\\' :: c :: (Piece.source ps ++ q :: r)) = _
      rw [pieces?, if_neg hq.symm, if_pos rfl, pieces?, hrest]
      rfl

/-- Four hexadecimal digits are four pieces of one code point. -/
theorem eq_append_of_hexPoint? {ps : List Piece} {x : CodePoint} (h : hexPoint? ps = some x) :
    ∃ digits, ps = digits ++ ps.drop 4 ∧ (Piece.source digits).length = 4 := by
  unfold hexPoint? at h
  split at h
  · rename_i a b c d ps
    exact ⟨[.plain a, .plain b, .plain c, .plain d], rfl, rfl⟩
  · cases h

/-- The fault of an escape is at the place of its backslash. -/
theorem decode_error {n place : Nat} {ps : List Piece} {fault : EscapeFault}
    (h : decode n ps = .error (fault, place)) :
    ∃ before c behind, ps = before ++ .escape c :: behind ∧ place = n + (Piece.source before).length := by
  have herror : ∀ {r : Except (EscapeFault × Nat) Text} {f : Text → Text}, r.map f = .error (fault, place) →
      r = .error (fault, place) := by
    intro r f hr
    cases r with
    | ok t => cases hr
    | error e => exact hr
  fun_induction decode n ps with
  | case1 n => cases h
  | case2 n c ps ih =>
    obtain ⟨before, d, behind, rfl, hplace⟩ := ih (herror h)
    refine ⟨.plain c :: before, d, behind, rfl, ?_⟩
    rw [hplace, Nat.add_assoc, Nat.add_comm 1]
    rfl
  | case3 n ps x hx ih =>
    obtain ⟨before, d, behind, hdrop, hplace⟩ := ih (herror h)
    obtain ⟨digits, hdigits, hlength⟩ := eq_append_of_hexPoint? hx
    refine ⟨.escape 'u' :: (digits ++ before), d, behind, ?_, ?_⟩
    · rw [List.cons_append, List.append_assoc, ← hdrop, ← hdigits]
    · have hsource : (Piece.source (.escape 'u' :: (digits ++ before))).length =
          2 + (4 + (Piece.source before).length) := by
        rw [← hlength, ← List.length_append, Piece.source, List.flatMap_cons, List.flatMap_append, List.length_append]
        rfl
      rw [hplace, hsource]
      omega
  | case4 n ps hx =>
    cases h
    exact ⟨[], _, ps, rfl, rfl⟩
  | case5 n e ps hu x hx ih =>
    obtain ⟨before, d, behind, rfl, hplace⟩ := ih (herror h)
    refine ⟨.escape e :: before, d, behind, rfl, ?_⟩
    rw [hplace, Nat.add_assoc, Nat.add_comm 2]
    rfl
  | case6 n e ps hu hx =>
    cases h
    exact ⟨[], _, ps, rfl, rfl⟩

/-- A fault of an escape has its place among the pieces. -/
theorem decode_place {n place : Nat} {ps : List Piece} {fault : EscapeFault}
    (h : decode n ps = .error (fault, place)) : n ≤ place ∧ place < n + (Piece.source ps).length := by
  obtain ⟨before, c, behind, rfl, rfl⟩ := decode_error h
  have hsource : (Piece.source (before ++ .escape c :: behind)).length =
      (Piece.source before).length + (2 + (Piece.source behind).length) := by
    rw [Piece.source, List.flatMap_append, List.flatMap_cons, List.length_append, List.length_append]
    rfl
  omega

/-! ## Numerals -/

namespace Numeral

theorem digits?_eq_some {s ds r : Text} (h : digits? s = some (ds, r)) : s = ds ++ r ∧ ds.IsDigits := by
  unfold digits? at h
  dsimp only at h
  split at h
  · cases h
  · rename_i hne
    cases h
    exact ⟨List.takeWhile_append_dropWhile.symm, hne, fun _ hc => List.mem_takeWhile_imp hc⟩

theorem minus_eq (s : Text) : s = Text.sign (minus s).1 ++ (minus s).2 := by
  cases s with
  | nil => rfl
  | cons c s =>
    rw [minus]
    split
    · rename_i hc
      rw [hc]
      rfl
    · rfl

theorem fraction?_eq (s : Text) :
    (s = ((fraction? s).1.elim [] fun f => chars ['.'] ++ f) ++ (fraction? s).2) ∧
      ∀ f, (fraction? s).1 = some f → f.IsDigits := by
  have hnone : ∀ r : Text, r = ((none : Option Text).elim [] fun f => chars ['.'] ++ f) ++ r ∧
      ∀ f, (none : Option Text) = some f → f.IsDigits := fun r => ⟨rfl, fun _ h => by cases h⟩
  cases s with
  | nil => exact hnone []
  | cons c s =>
    rw [fraction?]
    split
    · rename_i hc
      split
      · rename_i ds r hds
        obtain ⟨hs, hdigits⟩ := digits?_eq_some hds
        refine ⟨?_, ?_⟩
        · rw [hc, hs]
          rfl
        · intro f hf
          cases hf
          exact hdigits
      · exact hnone _
    · exact hnone _

theorem powerSign_eq (s : Text) :
    s = (powerSign s).1.toList ++ (powerSign s).2 ∧ ∀ c, (powerSign s).1 = some c → c = '+' ∨ c = '-' := by
  cases s with
  | nil => exact ⟨rfl, fun _ h => by cases h⟩
  | cons c s =>
    rw [powerSign]
    split
    · rename_i hc
      exact ⟨rfl, fun _ h => Option.some.inj h ▸ hc⟩
    · exact ⟨rfl, fun _ h => by cases h⟩

theorem power?_eq (s : Text) : s = ((power? s).1.elim [] Power.text) ++ (power? s).2 ∧
    ∀ p, (power? s).1 = some p → p.IsWritten := by
  have hnone : ∀ r : Text, r = ((none : Option Power).elim [] Power.text) ++ r ∧
      ∀ p, (none : Option Power) = some p → p.IsWritten := fun r => ⟨rfl, fun _ h => by cases h⟩
  cases s with
  | nil => exact hnone []
  | cons c s =>
    rw [power?]
    split
    · rename_i hmark
      split
      · rename_i ds r hds
        obtain ⟨hs, hdigits⟩ := digits?_eq_some hds
        obtain ⟨hsign, hsigns⟩ := powerSign_eq s
        refine ⟨?_, ?_⟩
        · dsimp only [Option.elim, Power.text, List.cons_append]
          rw [List.append_assoc, ← hs, ← hsign]
        · intro p hp
          cases hp
          exact ⟨hmark, hsigns, hdigits⟩
      · exact hnone _
    · exact hnone _

/-- **A numeral that is read is what the text starts with.** -/
theorem leading?_eq_some {s r : Text} {n : Numeral} (h : leading? s = some (n, r)) : s = n.text ++ r ∧ n.IsWritten := by
  unfold leading? at h
  dsimp only at h
  split at h
  · cases h
  · rename_i whole t hwhole
    cases h
    obtain ⟨hs, hdigits⟩ := digits?_eq_some hwhole
    obtain ⟨hfraction, hf⟩ := fraction?_eq t
    obtain ⟨hpower, hp⟩ := power?_eq (fraction? t).2
    refine ⟨?_, hdigits, hf, hp⟩
    calc s = Text.sign (minus s).1 ++ (minus s).2 := minus_eq s
      _ = Text.sign (minus s).1 ++ (whole ++ t) := by rw [hs]
      _ = _ := by
        unfold text
        dsimp only
        rw [List.append_assoc, List.append_assoc, List.append_assoc, ← hpower, ← hfraction]

/-- A written numeral is one numeral as a whole. -/
theorem read?_text {n : Numeral} (h : n.IsWritten) : read? n.text = some n := by
  have hleading := leading?_text h (r := []) fun c hc => by cases hc
  rw [List.append_nil] at hleading
  rw [read?, hleading]

end Numeral

/-! ## Lexemes -/

theorem Lexeme.quoted_place {c : CodePoint} {s : Text} {n place : Nat} {fault : LexicalFault}
    (h : quoted c s n = .error (fault, place)) : n ≤ place ∧ place < n + 1 + s.length := by
  unfold quoted at h
  split at h
  · cases h
    omega
  · rename_i ps r hps
    split at h
    · cases h
    · rename_i f p hdecode
      cases h
      have hplace := decode_place hdecode
      have hlength := congrArg List.length (pieces?_eq_some hps).1
      simp only [Bool.false_eq_true, if_false, List.nil_append, List.length_append, List.length_cons] at hlength
      omega

/-- A lexical fault has its place in the text that starts with `c` at `n`. -/
theorem Lexeme.leading_place {c : CodePoint} {s : Text} {n place : Nat} {fault : LexicalFault}
    (h : leading c s n = .error (fault, place)) : n ≤ place ∧ place < n + 1 + s.length := by
  unfold leading at h
  split at h
  · split at h <;> cases h
  · split at h
    · cases h
    · split at h
      · cases h
      · split at h
        · cases h
        · split at h
          · exact quoted_place h
          · split at h
            · cases h
            · cases h
              omega

/-- A numeral that is read stands at the start of the text, and is one that can be written. -/
theorem Lexeme.leading_number {c : CodePoint} {s : Text} {n k : Nat} {m : Numeral}
    (h : leading c s n = .ok (.number m, k)) : m.IsWritten ∧ m.text <+: c :: s := by
  unfold leading at h
  split at h
  · split at h <;> cases h
  · split at h
    · rename_i x hx
      have hsymbols : ∀ p ∈ symbols, p.2 ≠ .number m := by simp [symbols]
      cases h
      obtain ⟨before, behind, hsplit, _⟩ := List.lookup_eq_some_iff.1 hx
      exact absurd rfl (hsymbols (c, .number m) (by simp [hsplit]))
    · split at h
      · cases h
      · split at h
        · rename_i hm
          cases h
          obtain ⟨hs, hwritten⟩ := Numeral.leading?_eq_some hm
          exact ⟨hwritten, _, hs.symm⟩
        · split at h
          · unfold quoted at h
            split at h
            · cases h
            · split at h <;> cases h
          · split at h <;> cases h

/-- **The numerals among the lexemes stand in the text**, and are such as can be written. -/
theorem lexemesFrom_number {n : Nat} {s : Text} {ls : List Placed} (h : lexemesFrom n s = .ok ls) {m : Numeral}
    (hm : Lexeme.number m ∈ ls.map Placed.lexeme) : m.IsWritten ∧ m.text <:+: s := by
  fun_induction lexemesFrom n s generalizing ls with
  | case1 n =>
    cases h
    cases hm
  | case2 n c s hc ih =>
    obtain ⟨hwritten, hinfix⟩ := ih h hm
    exact ⟨hwritten, hinfix.trans (List.suffix_cons c s).isInfix⟩
  | case3 n c s hc e he => cases h
  | case4 n c s hc x k hx ih =>
    obtain ⟨ls', hls', rfl⟩ := map_eq_ok.1 h
    rcases List.mem_cons.1 hm with hm | hm
    · cases hm
      obtain ⟨hwritten, hprefix⟩ := Lexeme.leading_number hx
      exact ⟨hwritten, hprefix.isInfix⟩
    · obtain ⟨hwritten, hinfix⟩ := ih hls' hm
      exact ⟨hwritten, hinfix.trans ((List.drop_suffix k s).trans (List.suffix_cons c s)).isInfix⟩

/-- **Lexemes stand inside the text.** -/
theorem lexemesFrom_position {n : Nat} {s : Text} {ls : List Placed} (h : lexemesFrom n s = .ok ls) :
    ∀ x ∈ ls, n ≤ x.position ∧ x.position < n + s.length := by
  fun_induction lexemesFrom n s generalizing ls with
  | case1 n =>
    cases h
    exact fun x hx => by cases hx
  | case2 n c s hc ih =>
    intro x hx
    have := ih h x hx
    rw [List.length_cons]
    omega
  | case3 n c s hc e he => cases h
  | case4 n c s hc x k hx ih =>
    obtain ⟨ls', hls', rfl⟩ := map_eq_ok.1 h
    refine List.forall_mem_cons.2 ⟨?_, fun y hy => ?_⟩
    · rw [List.length_cons]
      dsimp only
      omega
    · have hy := ih hls' y hy
      rw [List.length_drop] at hy
      rw [List.length_cons]
      omega

/-- **Lexical faults have their place inside the text.** -/
theorem lexemesFrom_place {n place : Nat} {s : Text} {fault : LexicalFault}
    (h : lexemesFrom n s = .error (fault, place)) : n ≤ place ∧ place < n + s.length := by
  fun_induction lexemesFrom n s with
  | case1 n => cases h
  | case2 n c s hc ih =>
    have := ih h
    rw [List.length_cons]
    omega
  | case3 n c s hc e he =>
    cases h
    have := Lexeme.leading_place he
    rw [List.length_cons]
    omega
  | case4 n c s hc x k hx ih =>
    cases hr : lexemesFrom (n + 1 + k) (s.drop k) with
    | ok ls =>
      rw [hr] at h
      cases h
    | error e =>
      rw [hr] at h
      cases h
      have hplace := ih hr
      rw [List.length_drop] at hplace
      rw [List.length_cons]
      omega

end TreePath
