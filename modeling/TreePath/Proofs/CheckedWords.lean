import TreePath.Proofs.Checked
import TreePath.Proofs.Placing

/-!
# Words and lexemes

The words of a text are its lexemes, and what stops one reader stops the other at the same place with the same message
(`words_eq`). In particular a backslash in the body of a quoted text has a code point behind it (`unescape_source`):
the closing quote is the first one that no backslash stands in front of, so the body is a row of whole pieces.
-/

namespace TreePath.Checked

/-- A lexical fault as a reader reports it. -/
def stopOf (e : LexicalFault × Nat) : Stop := .lexical e.1 e.2

/-! ## Quoted texts -/

theorem unescape_plain (n : Nat) {c : CodePoint} (s : Text) (h : c ≠ '\\') :
    unescape n (c :: s) = (unescape (n + 1) s).map (c :: ·) := by
  rw [unescape.eq_def]
  exact if_neg h

theorem unescape_escape (n : Nat) (e : CodePoint) (s : Text) : unescape n ('\\' :: e :: s) =
    if e = 'u' then
      match hexPoint? ((s.take 4).map .plain) with
      | some x => (unescape (n + 6) (s.drop 4)).map (x :: ·)
      | none => .error (.lexical (.escape .unicode) n)
    else
      match readEscapes.lookup e with
      | some x => (unescape (n + 2) s).map (x :: ·)
      | none => .error (.lexical (.escape (.unknown e)) n) := by
  rw [unescape.eq_def]
  exact if_pos rfl

/-- A body without a backslash stands for itself. -/
theorem unescape_of_notMem {s : Text} (h : ('\\' : CodePoint) ∉ s) (n : Nat) : unescape n s = .ok s := by
  induction s generalizing n with
  | nil => rw [unescape]
  | cons c s ih =>
    obtain ⟨hc, hs⟩ := not_or.1 (List.mem_cons.not.1 h)
    rw [unescape_plain n s (Ne.symm hc), ih hs]
    rfl

/-- A backslash is no hexadecimal digit. -/
theorem hexPoint?_of_mem {ps : List Piece} (h : Piece.plain '\\' ∈ ps.take 4) : hexPoint? ps = none := by
  have hdigit : hexDigit? '\\' = none := rfl
  unfold hexPoint?
  split
  · simp only [List.take_succ_cons, List.take_zero, List.mem_cons, Piece.plain.injEq, List.not_mem_nil, or_false] at h
    rcases h with h | h | h | h <;> rw [← h] <;> simp [hdigit]
  · rfl

/-- Four hexadecimal digits are the same digits as pieces and as code points. -/
theorem hexPoint?_source (ps : List Piece) : hexPoint? (((Piece.source ps).take 4).map .plain) = hexPoint? ps := by
  match ps with
  | .plain _ :: .plain _ :: .plain _ :: .plain _ :: _ => rfl
  | [] | [.plain _] | [.plain _, .plain _] | [.plain _, .plain _, .plain _] => rfl
  | .escape _ :: _ => exact hexPoint?_of_mem (by simp [Piece.source, Piece.text, chars])
  | .plain _ :: .escape _ :: _ => exact hexPoint?_of_mem (by simp [Piece.source, Piece.text, chars])
  | .plain _ :: .plain _ :: .escape _ :: _ => exact hexPoint?_of_mem (by simp [Piece.source, Piece.text, chars])
  | .plain _ :: .plain _ :: .plain _ :: .escape _ :: _ =>
    exact hexPoint?_of_mem (by simp [Piece.source, Piece.text, chars])

theorem drop_source {ps : List Piece} {x : CodePoint} (h : hexPoint? ps = some x) :
    (Piece.source ps).drop 4 = Piece.source (ps.drop 4) := by
  unfold hexPoint? at h
  split at h
  · rfl
  · cases h

/-- **Decoding code point by code point never asks for one behind the last.** -/
theorem unescape_source {q : CodePoint} {ps : List Piece} (h : ∀ p ∈ ps, p.IsOpen q) (n : Nat) :
    unescape n (Piece.source ps) = (decode n ps).mapError fun e => stopOf (.escape e.1, e.2) := by
  have hescape : ∀ e ps, Piece.source (.escape e :: ps) = ('\\' : CodePoint) :: e :: Piece.source ps := fun _ _ => rfl
  have hmap : ∀ (r : Except (EscapeFault × Nat) Text) (x : CodePoint),
      (r.mapError fun e => stopOf (.escape e.1, e.2)).map (x :: ·) =
        (r.map (x :: ·)).mapError fun e => stopOf (.escape e.1, e.2) := fun r x => by cases r <;> rfl
  fun_induction decode n ps with
  | case1 n =>
    rw [Piece.source, List.flatMap_nil, unescape]
    rfl
  | case2 n c ps ih =>
    obtain ⟨hc, hps⟩ := List.forall_mem_cons.1 h
    have hsource : Piece.source (.plain c :: ps) = c :: Piece.source ps := rfl
    rw [hsource, unescape_plain n _ hc.2, ih hps, hmap]
  | case3 n ps x hx ih =>
    have hps := List.forall_mem_of_forall_mem_cons h
    rw [hescape, unescape_escape, if_pos rfl, hexPoint?_source, hx]
    dsimp only
    rw [drop_source hx, ih fun p hp => hps p (List.mem_of_mem_drop hp), hmap]
  | case4 n ps hx =>
    rw [hescape, unescape_escape, if_pos rfl, hexPoint?_source, hx]
    rfl
  | case5 n e ps hu x hx ih =>
    rw [hescape, unescape_escape, if_neg hu, hx]
    dsimp only
    rw [ih (List.forall_mem_of_forall_mem_cons h), hmap]
  | case6 n e ps hu hx =>
    rw [hescape, unescape_escape, if_neg hu, hx]
    rfl

theorem quotedWord_eq (c : CodePoint) (s : Text) (n : Nat) : quotedWord c s n =
    ((Lexeme.quoted c s n).mapError stopOf).map fun p => (wordOf ⟨p.1, n⟩, p.2) := by
  unfold quotedWord Lexeme.quoted
  cases hps : pieces? c false s with
  | none => rfl
  | some x =>
    obtain ⟨ps, r⟩ := x
    obtain ⟨hs, hopen⟩ := pieces?_eq_some hps
    have hbody : s.take (s.length - (r.length + 1)) = Piece.source ps := by
      change s = Piece.source ps ++ c :: r at hs
      have hlength : s.length - (r.length + 1) = (Piece.source ps).length := by
        rw [hs, List.length_append, List.length_cons]
        omega
      rw [hlength, hs, List.take_left]
    have hdecoded : (if ('\\' : CodePoint) ∈ Piece.source ps then unescape (n + 1) (Piece.source ps)
        else .ok (Piece.source ps)) = (decode (n + 1) ps).mapError fun e => stopOf (.escape e.1, e.2) := by
      split
      · exact unescape_source hopen (n + 1)
      · rename_i hmem
        rw [← unescape_source hopen (n + 1), unescape_of_notMem hmem]
    dsimp only
    rw [hbody, hdecoded, Piece.width_eq_length]
    cases decode (n + 1) ps with
    | ok t => rfl
    | error e => rfl

/-! ## Words -/

theorem leadingWord_eq (c : CodePoint) (s : Text) (n : Nat) : leadingWord c s n =
    ((Lexeme.leading c s n).mapError stopOf).map fun p => (wordOf ⟨p.1, n⟩, p.2) := by
  unfold leadingWord
  split
  · rename_i hquote
    have hleading : Lexeme.leading c s n = Lexeme.quoted c s n := by
      rcases hquote with rfl | rfl
      · rfl
      · rfl
    rw [quotedWord_eq, hleading]
  · cases Lexeme.leading c s n with
    | ok x => rfl
    | error e => rfl

theorem wordsFrom_eq (n : Nat) (s : Text) :
    wordsFrom n s = ((lexemesFrom n s).mapError stopOf).map (List.map wordOf) := by
  fun_induction lexemesFrom n s with
  | case1 n =>
    rw [wordsFrom]
    rfl
  | case2 n c s hc ih => rw [wordsFrom, if_pos hc, ih]
  | case3 n c s hc e he =>
    rw [wordsFrom, if_neg hc, leadingWord_eq, he]
    rfl
  | case4 n c s hc x k hx ih =>
    rw [wordsFrom, if_neg hc, leadingWord_eq, hx]
    change (wordsFrom (n + 1 + k) (s.drop k)).map (wordOf ⟨x, n⟩ :: ·) = _
    rw [ih]
    cases lexemesFrom (n + 1 + k) (s.drop k) with
    | ok ls => rfl
    | error e => rfl

/-- The words that lexemes stand for, with the end of the text behind them. -/
def wordsOf (text : Text) (ls : List Placed) : List Word := ls.map wordOf ++ [ending text]

/-- **The words of a text are its lexemes.** -/
theorem words_eq (text : Text) : words text = ((lexemes text).mapError stopOf).map (wordsOf text) := by
  rw [words, wordsFrom_eq, lexemes]
  cases lexemesFrom 0 text with
  | ok ls => rfl
  | error e => rfl

end TreePath.Checked
