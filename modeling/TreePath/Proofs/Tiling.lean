import TreePath.Proofs.Spacing

/-!
# Lexemes tile the text

`scan` reads a text like `lexemes` (`lexemesFrom_eq_scanFrom`), and says of each lexeme where it stops, and of a fault
what was found before.

* Without a fault, the spans of the lexemes and blanks between them are the text (`tiled_of_scanFrom`).
* A fault leaves what was found before it as if the text ended there (`scanFrom_stops`).
* A quoted text goes as far as the first quote that no backslash escapes (`closesAt_of_pieces?`, `pieces?_eq_none_iff`),
  and an escape in it is at fault at its backslash (`scan_escape`).

Together they say how any text is read (`lexemes_tile`).
-/

namespace TreePath

/-! ## Scanning -/

/-- A lexeme that takes the code points from `start` on, up to `stop` and without it. -/
structure Span where
  lexeme : Lexeme
  start : Nat
  stop : Nat
  deriving DecidableEq

def Span.placed (x : Span) : Placed := ⟨x.lexeme, x.start⟩

/-- The lexemes of a text whose first code point stands at `position`, up to the first fault, and this fault. -/
def scanFrom (position : Nat) : Text → List Span × Option (LexicalFault × Nat)
  | [] => ([], none)
  | c :: s =>
    if c.isBlank then scanFrom (position + 1) s
    else
      match Lexeme.leading c s position with
      | .error e => ([], some e)
      | .ok (x, n) =>
        let (xs, fault) := scanFrom (position + 1 + n) (s.drop n)
        (⟨x, position, position + 1 + n⟩ :: xs, fault)
termination_by s => s.length

def scan (s : Text) : List Span × Option (LexicalFault × Nat) := scanFrom 0 s

theorem scanFrom_nil (n : Nat) : scanFrom n [] = ([], none) := by rw [scanFrom]

theorem scanFrom_blank {n : Nat} {c : CodePoint} {s : Text} (hc : c.isBlank = true) :
    scanFrom n (c :: s) = scanFrom (n + 1) s := by rw [scanFrom, if_pos hc]

theorem scanFrom_lexeme {n k : Nat} {c : CodePoint} {s : Text} {x : Lexeme} {xs : List Span}
    {fault : Option (LexicalFault × Nat)} (hc : ¬ c.isBlank = true) (h : Lexeme.leading c s n = .ok (x, k))
    (hs : scanFrom (n + 1 + k) (s.drop k) = (xs, fault)) :
    scanFrom n (c :: s) = (⟨x, n, n + 1 + k⟩ :: xs, fault) := by
  rw [scanFrom, if_neg hc, h]
  dsimp only
  rw [hs]

/-- Scanning finds the lexemes and the fault of the text. -/
theorem lexemesFrom_eq_scanFrom (n : Nat) (s : Text) : lexemesFrom n s = match scanFrom n s with
    | (xs, none) => .ok (xs.map Span.placed)
    | (_, some e) => .error e := by
  fun_induction scanFrom n s with
  | case1 n => exact lexemesFrom_nil n
  | case2 n c s hc ih => rw [lexemesFrom, if_pos hc, ih]
  | case3 n c s hc e he => rw [lexemesFrom, if_neg hc, he]
  | case4 n c s hc x k hx xs fault hscan ih =>
    rw [lexemesFrom, if_neg hc, hx]
    dsimp only
    rw [ih, hscan]
    cases fault with
    | none => rfl
    | some e => rfl

theorem lexemesFrom_of_scanFrom {n : Nat} {s : Text} {xs : List Span} (h : scanFrom n s = (xs, none)) :
    lexemesFrom n s = .ok (xs.map Span.placed) := by rw [lexemesFrom_eq_scanFrom, h]

theorem scanFrom_of_lexemesFrom {n : Nat} {s : Text} {ls : List Placed} (h : lexemesFrom n s = .ok ls) :
    ∃ xs, scanFrom n s = (xs, none) ∧ xs.map Span.placed = ls := by
  rw [lexemesFrom_eq_scanFrom] at h
  split at h
  · rename_i xs hscan
    exact ⟨xs, hscan, Except.ok.inj h⟩
  · cases h

theorem lexemesFrom_of_scanFrom_fault {n : Nat} {s : Text} {xs : List Span} {e : LexicalFault × Nat}
    (h : scanFrom n s = (xs, some e)) : lexemesFrom n s = .error e := by rw [lexemesFrom_eq_scanFrom, h]

/-! ## Tilings -/

/-- The lexeme is written as the text. A string is written in two equal quotes, between which this quote is escaped, and
is what stands between them without the escapes. -/
inductive Lexeme.WrittenAs : Lexeme → Text → Prop
  | plain {x : Lexeme} (h : ∀ s, x ≠ .string s) : WrittenAs x x.text
  | string {q : CodePoint} {ps : List Piece} {s : Text} (hquote : q.IsQuote) (hopen : ∀ p ∈ ps, p.IsOpen q)
      (hdecode : decode 0 ps = .ok s) : WrittenAs (.string s) (q :: (Piece.source ps ++ [q]))

/-- The text, whose first code point stands at a position, is the spans one behind the other with blanks around them. -/
inductive Tiled : Nat → List Span → Text → Prop
  | blanks {n : Nat} {gap : Text} (hgap : gap.isBlank = true) : Tiled n [] gap
  | lexeme {n : Nat} {x : Lexeme} {gap raw s : Text} {xs : List Span} (hgap : gap.isBlank = true) (hne : raw ≠ [])
      (hraw : x.WrittenAs raw) (h : Tiled (n + gap.length + raw.length) xs s) :
      Tiled n (⟨x, n + gap.length, n + gap.length + raw.length⟩ :: xs) (gap ++ (raw ++ s))

theorem Tiled.blank {n : Nat} {c : CodePoint} {s : Text} {xs : List Span} (hc : c.isBlank = true)
    (h : Tiled (n + 1) xs s) : Tiled n xs (c :: s) := by
  have hcons : ∀ {gap : Text}, gap.isBlank = true → Text.isBlank (c :: gap) = true := fun hgap => by
    rw [Text.isBlank, List.all_cons, hc]
    exact hgap
  cases h with
  | blanks hgap => exact .blanks (hcons hgap)
  | @lexeme _ x gap raw s xs hgap hne hraw h =>
    have hstart : n + 1 + gap.length = n + (c :: gap).length := by
      rw [List.length_cons]
      omega
    rw [hstart] at h ⊢
    exact .lexeme (hcons hgap) hne hraw h

theorem Tiled.cons {n : Nat} {x : Lexeme} {raw s : Text} {xs : List Span} (hne : raw ≠ []) (hraw : x.WrittenAs raw)
    (h : Tiled (n + raw.length) xs s) : Tiled n (⟨x, n, n + raw.length⟩ :: xs) (raw ++ s) :=
  @Tiled.lexeme n x [] raw s xs rfl hne hraw h

/-- The lexemes of a tiling stand one behind the other, before the end of the text. -/
theorem Tiled.pairwise {n : Nat} {xs : List Span} {s : Text} (h : Tiled n xs s) :
    (xs.map Span.start ++ [n + s.length]).Pairwise (· < ·) ∧ ∀ x ∈ xs, n ≤ x.start := by
  induction h with
  | blanks hgap => simp
  | @lexeme n x gap raw s xs hgap hne hraw h ih =>
    obtain ⟨hpairwise, hstart⟩ := ih
    have hpos : 0 < raw.length := List.length_pos_iff.2 hne
    have hend : n + gap.length + raw.length + s.length = n + (gap ++ (raw ++ s)).length := by
      simp only [List.length_append]
      omega
    rw [hend] at hpairwise
    refine ⟨?_, ?_⟩
    · refine List.pairwise_cons.2 ⟨fun i hi => ?_, hpairwise⟩
      rcases List.mem_append.1 hi with hi | hi
      · obtain ⟨y, hy, rfl⟩ := List.mem_map.1 hi
        have := hstart y hy
        dsimp only
        omega
      · rw [List.mem_singleton.1 hi, ← hend]
        dsimp only
        omega
    · refine List.forall_mem_cons.2 ⟨Nat.le_add_right .., fun y hy => ?_⟩
      have := hstart y hy
      omega

/-! ## What a lexeme is written as -/

theorem Numeral.text_ne_nil {n : Numeral} (h : n.IsWritten) : n.text ≠ [] := by
  intro htext
  simp only [text, List.append_eq_nil_iff] at htext
  exact h.whole.1 htext.1.1.2

namespace Lexeme

theorem operator?_text {c : CodePoint} {s : Text} {op : Operator} {k : Nat} (h : operator? c s = some (op, k)) :
    c :: s.take k = op.text := by
  have hequals : (s.head? == some ('=' : CodePoint)) = true → s.take 1 = chars ['='] := take_one_of_head?
  unfold operator? at h
  dsimp only at h
  repeat' split at h
  all_goals cases h
  all_goals simp_all [Operator.text, chars]

theorem quoted_writtenAs {q : CodePoint} (hquote : q.IsQuote) {s : Text} {n k : Nat} {x : Lexeme}
    (h : quoted q s n = .ok (x, k)) : x.WrittenAs (q :: s.take k) := by
  unfold quoted at h
  split at h
  · cases h
  · rename_i ps rest hps
    split at h
    · rename_i t ht
      cases h
      have htext : s = (Piece.source ps ++ [q]) ++ rest := by simpa using (pieces?_eq_some hps).1
      have htake : s.take ((Piece.source ps).length + 1) = Piece.source ps ++ [q] := by
        rw [htext, List.take_left' (by simp)]
      rw [Piece.width_eq_length, htake]
      exact .string hquote (pieces?_eq_some hps).2 (decode_of_decode ht 0)
    · cases h

theorem leading_writtenAs {c : CodePoint} {s : Text} {n k : Nat} {x : Lexeme} (h : leading c s n = .ok (x, k)) :
    x.WrittenAs (c :: s.take k) := by
  have hplain : ∀ {x : Lexeme} {raw : Text}, (∀ t, x ≠ .string t) → raw = x.text → x.WrittenAs raw := by
    rintro x _ hx rfl
    exact .plain hx
  unfold leading at h
  split at h
  · rename_i hdot
    split at h
    · rename_i hdots
      cases h
      refine hplain (fun t ht => by cases ht) ?_
      rw [hdot, take_one_of_head? hdots]
      rfl
    · cases h
      refine hplain (fun t ht => by cases ht) ?_
      rw [hdot]
      rfl
  · split at h
    · rename_i y hy
      cases h
      have hsymbols : ∀ p ∈ symbols, p.2.text = [p.1] ∧ ∀ t, p.2 ≠ .string t := by simp [symbols, text, chars]
      obtain ⟨before, behind, hsplit, _⟩ := List.lookup_eq_some_iff.1 hy
      obtain ⟨htext, hstring⟩ := hsymbols (c, x) (by simp [hsplit])
      exact hplain hstring htext.symm
    · split at h
      · rename_i op j hop
        cases h
        exact hplain (fun t ht => by cases ht) (operator?_text hop)
      · split at h
        · rename_i m rest hm
          cases h
          refine hplain (fun t ht => by cases ht) ?_
          obtain ⟨hs, hwritten⟩ := Numeral.leading?_eq_some hm
          cases htext : m.text with
          | nil => exact absurd htext (Numeral.text_ne_nil hwritten)
          | cons d ds =>
            rw [htext, List.cons_append, List.cons.injEq] at hs
            obtain ⟨rfl, rfl⟩ := hs
            rw [List.length_cons, Nat.add_sub_cancel, List.take_left]
            exact htext.symm
        · split at h
          · rename_i hquote
            exact quoted_writtenAs hquote h
          · split at h
            · cases h
              refine hplain (fun t ht => by cases ht) ?_
              exact congrArg (c :: ·) (List.prefix_iff_eq_take.1 (List.takeWhile_prefix _)).symm
            · cases h

end Lexeme

/-- **Without a fault the lexemes tile the text.** -/
theorem tiled_of_scanFrom {n : Nat} {s : Text} {xs : List Span} (h : scanFrom n s = (xs, none)) : Tiled n xs s := by
  fun_induction scanFrom n s generalizing xs with
  | case1 n =>
    cases h
    exact .blanks rfl
  | case2 n c s hc ih => exact .blank hc (ih h)
  | case3 n c s hc e he => cases h
  | case4 n c s hc x k hx ys fault hscan ih =>
    obtain ⟨rfl, rfl⟩ := Prod.mk.inj h
    have hlength : (c :: s.take k).length = 1 + k := by
      have := Lexeme.leading_le hx
      rw [List.length_cons, List.length_take]
      omega
    have htiled := @Tiled.cons n x (c :: s.take k) (s.drop k) ys (List.cons_ne_nil c _) (Lexeme.leading_writtenAs hx)
    rw [hlength, ← Nat.add_assoc, List.cons_append, List.take_append_drop] at htiled
    exact htiled (ih hscan)

/-! ## What is found before a fault -/

/-- **A fault leaves what was found before it**, as if the text ended there. -/
theorem scanFrom_stops {n : Nat} {s : Text} {found : List Span} {e : LexicalFault × Nat}
    (h : scanFrom n s = (found, some e)) : ∃ (before : Text) (c : CodePoint) (behind : Text),
      s = before ++ c :: behind ∧ Lexeme.leading c behind (n + before.length) = .error e ∧
        scanFrom n before = (found, none) := by
  fun_induction scanFrom n s generalizing found with
  | case1 n => cases h
  | case2 n c s hc ih =>
    obtain ⟨before, d, behind, rfl, herror, hfound⟩ := ih h
    refine ⟨c :: before, d, behind, rfl, ?_, ?_⟩
    · rw [List.length_cons, Nat.add_comm before.length, ← Nat.add_assoc]
      exact herror
    · rw [scanFrom_blank hc, hfound]
  | case3 n c s hc e' he =>
    cases h
    exact ⟨[], c, s, rfl, he, scanFrom_nil n⟩
  | case4 n c s hc x k hx xs fault hscan ih =>
    obtain ⟨rfl, rfl⟩ := Prod.mk.inj h
    obtain ⟨before, d, behind, hsplit, herror, hfound⟩ := ih hscan
    have hk := Lexeme.leading_le hx
    have hlength : (s.take k).length = k := by
      rw [List.length_take]
      omega
    have hs : s = s.take k ++ before ++ d :: behind := by
      rw [List.append_assoc, ← hsplit, List.take_append_drop]
    refine ⟨c :: (s.take k ++ before), d, behind, ?_, ?_, ?_⟩
    · rw [List.cons_append, ← hs]
    · have hplace : n + (c :: (s.take k ++ before)).length = n + 1 + k + before.length := by
        rw [List.length_cons, List.length_append, hlength]
        omega
      rw [hplace]
      exact herror
    · -- The lexeme is the same one where the text ends before the fault.
      rw [hs] at hx
      have hleading := Lexeme.leading_of_append hx (by rw [List.length_append, hlength]; omega) n
      refine scanFrom_lexeme hc hleading ?_
      rw [List.drop_left' hlength]
      exact hfound

/-- Only quoted texts and code points that start no lexeme are at fault. -/
theorem Lexeme.leading_error {c : CodePoint} {s : Text} {n : Nat} {e : LexicalFault × Nat}
    (h : leading c s n = .error e) :
    (c.IsQuote ∧ quoted c s n = .error e) ∨ (¬ c.IsQuote ∧ e = (.unexpected c, n)) := by
  unfold leading at h
  split at h
  · split at h <;> cases h
  · split at h
    · cases h
    · split at h
      · cases h
      · split at h
        · cases h
        · split at h
          · rename_i hquote
            exact .inl ⟨hquote, h⟩
          · rename_i hquote
            split at h
            · cases h
            · cases h
              exact .inr ⟨hquote, rfl⟩

theorem Lexeme.leading_quote {q : CodePoint} (hquote : q.IsQuote) (s : Text) (n : Nat) :
    leading q s n = quoted q s n := by
  rcases hquote with rfl | rfl <;> rfl

/-! ## Where a quoted text closes -/

/-- Whether in front of the place stands a backslash that is not escaped itself. -/
def Text.escaped (s : Text) : Nat → Bool
  | 0 => false
  | i + 1 => s[i]? == some ('\\' : CodePoint) && !s.escaped i

/-- At the place the quote `q` closes what is opened in front of the text. -/
def Text.ClosesAt (q : CodePoint) (s : Text) (i : Nat) : Prop := s[i]? = some q ∧ s.escaped i = false

theorem Text.escaped_cons {c : CodePoint} (hc : c ≠ '\\') (s : Text) (i : Nat) :
    Text.escaped (c :: s) (i + 1) = s.escaped i := by
  induction i with
  | zero => simp [escaped, hc]
  | succ i ih => rw [escaped, ih, List.getElem?_cons_succ, escaped]

theorem Text.escaped_backslash (c : CodePoint) (s : Text) (i : Nat) :
    Text.escaped (CodePoint.ofChar '\\' :: c :: s) (i + 2) = s.escaped i := by
  induction i with
  | zero => simp [escaped]
  | succ i ih => rw [escaped, ih, List.getElem?_cons_succ, List.getElem?_cons_succ, escaped]

namespace Text.ClosesAt

variable {q c : CodePoint} {s : Text} {i : Nat}

theorem cons_iff (hc : c ≠ '\\') (hq : c ≠ q) : ClosesAt q (c :: s) i ↔ ∃ j, i = j + 1 ∧ ClosesAt q s j := by
  rcases i with _ | i
  · simp [ClosesAt, hq]
  · simp [ClosesAt, escaped_cons hc]

/-- Neither a backslash nor what stands behind it closes. -/
theorem backslash_iff (hq : q ≠ '\\') :
    ClosesAt q (CodePoint.ofChar '\\' :: c :: s) i ↔ ∃ j, i = j + 2 ∧ ClosesAt q s j := by
  rcases i with _ | _ | i
  · simp [ClosesAt, hq.symm]
  · simp [ClosesAt, escaped]
  · simp [ClosesAt, escaped_backslash]

end Text.ClosesAt

/-- Behind pieces that do not close, the quote closes for the first time. -/
theorem closesAt_source {q : CodePoint} (hq : q ≠ '\\') {ps : List Piece} (h : ∀ p ∈ ps, p.IsOpen q) (r : Text) :
    Text.ClosesAt q (Piece.source ps ++ q :: r) (Piece.source ps).length ∧
      ∀ i < (Piece.source ps).length, ¬ Text.ClosesAt q (Piece.source ps ++ q :: r) i := by
  induction ps with
  | nil => exact ⟨⟨rfl, rfl⟩, fun i hi => by cases hi⟩
  | cons p ps ih =>
    obtain ⟨hp, hps⟩ := List.forall_mem_cons.1 h
    obtain ⟨hcloses, hfirst⟩ := ih hps
    cases p with
    | plain c =>
      have hiff : ∀ i, Text.ClosesAt q (c :: (Piece.source ps ++ q :: r)) i ↔ _ := fun i =>
        Text.ClosesAt.cons_iff hp.2 hp.1
      refine ⟨(hiff _).2 ⟨_, rfl, hcloses⟩, fun i hi hat => ?_⟩
      obtain ⟨j, rfl, hj⟩ := (hiff i).1 hat
      exact hfirst j (Nat.lt_of_succ_lt_succ hi) hj
    | escape c =>
      have hiff : ∀ i, Text.ClosesAt q (CodePoint.ofChar '\\' :: c :: (Piece.source ps ++ q :: r)) i ↔ _ := fun i =>
        Text.ClosesAt.backslash_iff hq
      refine ⟨(hiff _).2 ⟨_, rfl, hcloses⟩, fun i hi hat => ?_⟩
      obtain ⟨j, rfl, hj⟩ := (hiff i).1 hat
      exact hfirst j (Nat.lt_of_add_lt_add_right hi) hj

/-- The pieces of a quoted text go as far as the first place where it closes. -/
theorem closesAt_of_pieces? {q : CodePoint} (hq : q ≠ '\\') {s r : Text} {ps : List Piece}
    (h : pieces? q false s = some (ps, r)) : s.ClosesAt q (Piece.source ps).length ∧
      ∀ i < (Piece.source ps).length, ¬ s.ClosesAt q i := by
  obtain rfl : s = Piece.source ps ++ q :: r := (pieces?_eq_some h).1
  exact closesAt_source hq ((pieces?_eq_some h).2) r

theorem not_closesAt_of_pieces? {q : CodePoint} (hq : q ≠ '\\') {escaping : Bool} {s : Text}
    (h : pieces? q escaping s = none) (i : Nat) :
    ¬ Text.ClosesAt q ((if escaping then chars ['\\'] else []) ++ s) i := by
  induction s generalizing escaping i with
  | nil =>
    rintro ⟨hat, _⟩
    cases escaping with
    | false => cases hat
    | true =>
      cases i with
      | zero => exact hq (Option.some.inj hat).symm
      | succ i => cases hat
  | cons c s ih =>
    cases escaping with
    | true =>
      intro hat
      obtain ⟨j, rfl, hj⟩ := (Text.ClosesAt.backslash_iff hq).1 hat
      exact ih (Option.map_eq_none_iff.1 h) j hj
    | false =>
      rw [pieces?] at h
      split at h
      · cases h
      · rename_i hquote
        split at h
        · rename_i hbackslash
          rw [hbackslash]
          exact ih h i
        · rename_i hbackslash
          intro hat
          obtain ⟨j, rfl, hj⟩ := (Text.ClosesAt.cons_iff hbackslash hquote).1 hat
          exact ih (Option.map_eq_none_iff.1 h) j hj

/-- **A quoted text has no end** if and only if its quote closes nowhere. -/
theorem pieces?_eq_none_iff {q : CodePoint} (hq : q ≠ '\\') {s : Text} :
    pieces? q false s = none ↔ ∀ i, ¬ s.ClosesAt q i := by
  refine ⟨fun h i => not_closesAt_of_pieces? hq h i, fun h => ?_⟩
  cases hpieces : pieces? q false s with
  | none => rfl
  | some x => exact absurd (closesAt_of_pieces? hq hpieces).1 (h _)

/-! ## Every text -/

namespace Text

/-- At `p` stands a quote that nothing closes. -/
def IsUnclosedAt (s : Text) (p : Nat) : Prop :=
  ∃ q, q.IsQuote ∧ s[p]? = some q ∧ ∀ i, ¬ ClosesAt q (s.drop (p + 1)) i

/-- From the quote at `start` to the one at `stop`, which is the first one to close it, reaches a quoted text. -/
def IsQuotedFrom (s : Text) (start stop : Nat) : Prop :=
  ∃ q n, q.IsQuote ∧ s[start]? = some q ∧ stop = start + 1 + n ∧ ClosesAt q (s.drop (start + 1)) n ∧
    ∀ i < n, ¬ ClosesAt q (s.drop (start + 1)) i

end Text

section

variable {before behind : Text} {c : CodePoint}

theorem getElem?_append_cons_length : (before ++ c :: behind)[before.length]? = some c := by simp

theorem drop_append_cons_succ : (before ++ c :: behind).drop (before.length + 1) = behind := by simp

end

theorem Lexeme.quoted_error {q : CodePoint} {s : Text} {n place : Nat} {fault : LexicalFault}
    (h : quoted q s n = .error (fault, place)) :
    (fault = .unterminated ∧ place = n ∧ pieces? q false s = none) ∨
      ∃ escape ps r, fault = .escape escape ∧ pieces? q false s = some (ps, r) ∧
        decode (n + 1) ps = .error (escape, place) := by
  unfold quoted at h
  split at h
  · rename_i hpieces
    cases h
    exact .inl ⟨rfl, rfl, hpieces⟩
  · rename_i ps r hpieces
    split at h
    · cases h
    · rename_i escape p hdecode
      cases h
      exact .inr ⟨escape, ps, r, rfl, hpieces, hdecode⟩

/-- A quote that nothing closes is at fault where the text before it has lexemes. -/
theorem lexemes_of_isUnclosedAt {text : Text} {p : Nat} {ls : List Placed} (hls : lexemes (text.take p) = .ok ls)
    (h : text.IsUnclosedAt p) : lexemes text = .error (.unterminated, p) := by
  obtain ⟨q, hquote, hat, hcloses⟩ := h
  obtain ⟨hp, rfl⟩ := List.getElem?_eq_some_iff.1 hat
  have hlength : 0 + (text.take p).length = p := by
    rw [List.length_take]
    omega
  have hblank : ¬ text[p].isBlank = true := by
    rcases hquote with h | h <;> (rw [h]; decide)
  have htext : text = text.take p ++ text[p] :: text.drop (p + 1) := by
    rw [List.getElem_cons_drop, List.take_append_drop]
  have hfault : lexemesFrom p (text[p] :: text.drop (p + 1)) = .error (.unterminated, p) := by
    rw [lexemesFrom, if_neg hblank, Lexeme.leading_quote hquote, Lexeme.quoted,
      (pieces?_eq_none_iff hquote.ne_backslash).2 hcloses]
  rw [lexemes] at hls
  rw [htext, lexemes, lexemesFrom_append_delimiter hquote.isDelimiter hls, hlength, hfault]
  rfl

/-- What is found before a fault has its lexemes alone, and what stands behind it makes the fault. -/
theorem scan_fault {text : Text} {found : List Span} {fault : LexicalFault} {p : Nat}
    (h : scan text = (found, some (fault, p))) : ∃ (before : Text) (c : CodePoint) (behind : Text),
      text = before ++ c :: behind ∧ lexemes before = .ok (found.map Span.placed) ∧
        ((c.IsQuote ∧ Lexeme.quoted c behind before.length = .error (fault, p)) ∨
          (¬ c.IsQuote ∧ fault = .unexpected c ∧ p = before.length)) := by
  obtain ⟨before, c, behind, htext, herror, hfound⟩ := scanFrom_stops h
  rw [Nat.zero_add] at herror
  refine ⟨before, c, behind, htext, lexemesFrom_of_scanFrom hfound, ?_⟩
  rcases Lexeme.leading_error herror with hquoted | ⟨hquote, hfault⟩
  · exact .inl hquoted
  · exact .inr ⟨hquote, Prod.mk.inj hfault⟩

theorem scan_unexpected {text : Text} {found : List Span} {c : CodePoint} {p : Nat}
    (h : scan text = (found, some (.unexpected c, p))) :
    lexemes (text.take p) = .ok (found.map Span.placed) ∧ text[p]? = some c ∧ ¬ c.IsQuote := by
  obtain ⟨before, d, behind, rfl, hfound, ⟨hquote, hquoted⟩ | ⟨hquote, hfault, rfl⟩⟩ := scan_fault h
  · rcases Lexeme.quoted_error hquoted with ⟨hfault, _, _⟩ | ⟨escape, ps, r, hfault, _, _⟩
    · cases hfault
    · cases hfault
  · cases hfault
    rw [List.take_left]
    exact ⟨hfound, getElem?_append_cons_length, hquote⟩

theorem scan_unterminated {text : Text} {found : List Span} {p : Nat}
    (h : scan text = (found, some (.unterminated, p))) :
    lexemes (text.take p) = .ok (found.map Span.placed) ∧ text.IsUnclosedAt p := by
  obtain ⟨before, c, behind, rfl, hfound, ⟨hquote, hquoted⟩ | ⟨_, hfault, _⟩⟩ := scan_fault h
  · rcases Lexeme.quoted_error hquoted with ⟨_, rfl, hpieces⟩ | ⟨escape, ps, r, hfault, _, _⟩
    · rw [List.take_left]
      refine ⟨hfound, c, hquote, getElem?_append_cons_length, ?_⟩
      rw [drop_append_cons_succ]
      exact (pieces?_eq_none_iff hquote.ne_backslash).1 hpieces
    · cases hfault
  · cases hfault

theorem scan_escape {text : Text} {found : List Span} {fault : EscapeFault} {p : Nat}
    (h : scan text = (found, some (.escape fault, p))) :
    ∃ start stop, lexemes (text.take start) = .ok (found.map Span.placed) ∧ text.IsQuotedFrom start stop ∧
      start < p ∧ p < stop ∧ text[p]? = some ('\\' : CodePoint) := by
  obtain ⟨before, q, behind, htext, hfound, ⟨hquote, hquoted⟩ | ⟨_, hfault, _⟩⟩ := scan_fault h
  · rcases Lexeme.quoted_error hquoted with ⟨hfault, _, _⟩ | ⟨escape, ps, r, _, hpieces, hdecode⟩
    · cases hfault
    · have hplace := decode_place hdecode
      refine ⟨before.length, before.length + 1 + (Piece.source ps).length, ?_, ?_, by omega, hplace.2, ?_⟩
      · rw [htext, List.take_left]
        exact hfound
      · rw [htext]
        refine ⟨q, (Piece.source ps).length, hquote, getElem?_append_cons_length, rfl, ?_⟩
        rw [drop_append_cons_succ]
        exact closesAt_of_pieces? hquote.ne_backslash hpieces
      · obtain ⟨first, c, last, rfl, rfl⟩ := decode_error hdecode
        obtain rfl : behind = _ := (pieces?_eq_some hpieces).1
        have hbackslash : text = (before ++ q :: Piece.source first) ++
            CodePoint.ofChar '\\' :: (c :: (Piece.source last ++ q :: r)) := by
          rw [htext, Piece.source, List.flatMap_append, List.flatMap_cons, ← Piece.source, ← Piece.source]
          simp [Piece.text, chars]
        have hlength : before.length + 1 + (Piece.source first).length =
            (before ++ q :: Piece.source first).length := by
          rw [List.length_append, List.length_cons]
          omega
        rw [hlength, hbackslash]
        exact getElem?_append_cons_length
  · cases hfault

theorem scan_of_lexemes_error {text : Text} {e : LexicalFault × Nat} (h : lexemes text = .error e) :
    ∃ found, scan text = (found, some e) := by
  rw [lexemes, lexemesFrom_eq_scanFrom] at h
  split at h
  · cases h
  · rename_i found e' hscan
    cases h
    exact ⟨found, hscan⟩

/-- **Lexing tiles every text.** Without a fault the lexemes and blanks between them are the text, and the lexemes stand
at increasing positions before its end. With a fault, what was found before it is what stands before it, and

* an unexpected code point is no quote;
* a quote has no end if and only if no quote of its kind that is not escaped follows, and it is at fault wherever the
  text before it has lexemes;
* an escape is at fault at its backslash, which stands between two quotes. -/
theorem lexemes_tile (text : Text) :
    (match scan text with
      | (xs, none) => lexemes text = .ok (xs.map Span.placed) ∧ Tiled 0 xs text ∧
          (xs.map Span.start ++ [text.length]).Pairwise (· < ·)
      | (found, some (.unexpected c, p)) => lexemes text = .error (.unexpected c, p) ∧
          lexemes (text.take p) = .ok (found.map Span.placed) ∧ text[p]? = some c ∧ ¬ c.IsQuote
      | (found, some (.unterminated, p)) => lexemes text = .error (.unterminated, p) ∧
          lexemes (text.take p) = .ok (found.map Span.placed) ∧ text.IsUnclosedAt p
      | (found, some (.escape fault, p)) => lexemes text = .error (.escape fault, p) ∧
          ∃ start stop, lexemes (text.take start) = .ok (found.map Span.placed) ∧ text.IsQuotedFrom start stop ∧
            start < p ∧ p < stop ∧ text[p]? = some ('\\' : CodePoint)) ∧
    ∀ p, lexemes text = .error (.unterminated, p) ↔
      (∃ ls, lexemes (text.take p) = .ok ls) ∧ text.IsUnclosedAt p := by
  constructor
  · split
    · rename_i xs hscan
      have htiled := tiled_of_scanFrom hscan
      have hpairwise := htiled.pairwise.1
      rw [Nat.zero_add] at hpairwise
      exact ⟨lexemesFrom_of_scanFrom hscan, htiled, hpairwise⟩
    · rename_i found c p hscan
      exact ⟨lexemesFrom_of_scanFrom_fault hscan, scan_unexpected hscan⟩
    · rename_i found p hscan
      exact ⟨lexemesFrom_of_scanFrom_fault hscan, scan_unterminated hscan⟩
    · rename_i found fault p hscan
      exact ⟨lexemesFrom_of_scanFrom_fault hscan, scan_escape hscan⟩
  · intro p
    constructor
    · intro h
      obtain ⟨found, hscan⟩ := scan_of_lexemes_error h
      obtain ⟨hfound, hat⟩ := scan_unterminated hscan
      exact ⟨⟨_, hfound⟩, hat⟩
    · rintro ⟨⟨ls, hls⟩, hat⟩
      exact lexemes_of_isUnclosedAt hls hat

end TreePath
