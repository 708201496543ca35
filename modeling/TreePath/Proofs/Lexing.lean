import TreePath.Path.Lexeme
import TreePath.Proofs.FloatText

/-!
# Fragments of path text

A text that starts with a written lexeme is split there, if what follows cannot prolong the lexeme (`EndsNumeral`,
`EndsName`). There is one lemma for each kind of lexeme (`Lexes.number`, `Lexes.name`, …); together they give the
lexemes of any text that is put together from written lexemes, whatever the neighbours.
-/

namespace TreePath

/-! ## Numerals -/

/-- The text does not go on with a numeral. -/
def EndsNumeral (r : Text) : Prop := ∀ c, r.head? = some c → c.isDigit = false ∧ c ≠ '.' ∧ c ≠ 'e' ∧ c ≠ 'E'

namespace Numeral

theorem digits?_append {ds r : Text} (h : ds.IsDigits) (hr : ∀ c, r.head? = some c → c.isDigit = false) :
    digits? (ds ++ r) = some (ds, r) := by
  have htake : r.takeWhile CodePoint.isDigit = [] := by
    cases r with
    | nil => rfl
    | cons c r => rw [List.takeWhile_cons, if_neg (by simp [hr c rfl])]
  have hdrop : r.dropWhile CodePoint.isDigit = r := by
    cases r with
    | nil => rfl
    | cons c r => rw [List.dropWhile_cons, if_neg (by simp [hr c rfl])]
  unfold digits?
  dsimp only
  rw [List.takeWhile_append_of_pos h.2, List.dropWhile_append_of_pos h.2, htake, hdrop, List.append_nil, if_neg h.1]

theorem digits?_of_not_digit {c : CodePoint} {s : Text} (h : c.isDigit = false) : digits? (c :: s) = none := by
  unfold digits?
  dsimp only
  rw [List.takeWhile_cons, if_neg (by simp [h] : ¬ c.isDigit = true), if_pos rfl]

theorem minus_append (negative : Bool) {ds : Text} (h : ds.IsDigits) (r : Text) :
    minus (Text.sign negative ++ (ds ++ r)) = (negative, ds ++ r) := by
  cases negative with
  | true => rfl
  | false =>
    cases ds with
    | nil => exact absurd rfl h.1
    | cons d ds =>
      have hne : d ≠ '-' := by
        rintro rfl
        exact absurd (h.2 _ (List.mem_cons_self ..)) (by decide)
      exact if_neg hne

theorem powerSign_append {p : Power} (h : p.IsWritten) (r : Text) :
    powerSign (p.sign.toList ++ (p.digits ++ r)) = (p.sign, p.digits ++ r) := by
  obtain ⟨mark, sign, ds⟩ := p
  cases sign with
  | some c => exact if_pos (h.sign c rfl)
  | none =>
    cases ds with
    | nil => exact absurd rfl h.digits.1
    | cons d ds =>
      have hd : d.isDigit = true := h.digits.2 _ (List.mem_cons_self ..)
      apply if_neg
      rintro (rfl | rfl)
      · exact absurd hd (by decide)
      · exact absurd hd (by decide)

theorem power?_append {power : Option Power} (h : ∀ p, power = some p → p.IsWritten) {r : Text}
    (hr : EndsNumeral r) : power? (power.elim [] Power.text ++ r) = (power, r) := by
  cases power with
  | none =>
    cases r with
    | nil => rfl
    | cons c r =>
      apply if_neg
      rintro (rfl | rfl)
      · exact (hr _ rfl).2.2.1 rfl
      · exact (hr _ rfl).2.2.2 rfl
  | some p =>
    have hp := h p rfl
    dsimp only [Option.elim, Power.text, List.cons_append]
    rw [power?, if_pos hp.mark, List.append_assoc, powerSign_append hp,
      digits?_append hp.digits fun c hc => (hr c hc).1]

/-- Behind the digits comes no digit. -/
theorem power_not_digit {power : Option Power} (h : ∀ p, power = some p → p.IsWritten) {r : Text}
    (hr : EndsNumeral r) : ∀ c, (power.elim [] Power.text ++ r).head? = some c → c.isDigit = false ∧ c ≠ '.' := by
  intro c hc
  cases power with
  | none => exact ⟨(hr c hc).1, (hr c hc).2.1⟩
  | some p =>
    cases hc
    rcases (h p rfl).mark with hm | hm
    · rw [hm]
      decide
    · rw [hm]
      decide

theorem fraction?_append {fraction : Option Text} (h : ∀ f, fraction = some f → f.IsDigits) {r : Text}
    (hr : ∀ c, r.head? = some c → c.isDigit = false ∧ c ≠ '.') :
    fraction? ((fraction.elim [] fun f => chars ['.'] ++ f) ++ r) = (fraction, r) := by
  cases fraction with
  | none =>
    cases r with
    | nil => rfl
    | cons c r => exact if_neg (hr c rfl).2
  | some f =>
    show fraction? (CodePoint.ofChar '.' :: (f ++ r)) = _
    rw [fraction?, if_pos rfl, digits?_append (h f rfl) fun c hc => (hr c hc).1]

theorem fraction_not_digit (fraction : Option Text) {r : Text}
    (hr : ∀ c, r.head? = some c → c.isDigit = false ∧ c ≠ '.') :
    ∀ c, ((fraction.elim [] fun f => chars ['.'] ++ f) ++ r).head? = some c → c.isDigit = false := by
  intro c hc
  cases fraction with
  | none => exact (hr c hc).1
  | some f =>
    cases hc
    decide

/-- A written numeral is the longest one in front of what cannot prolong it. -/
theorem leading?_text {n : Numeral} (h : n.IsWritten) {r : Text} (hr : EndsNumeral r) :
    leading? (n.text ++ r) = some (n, r) := by
  have hpower := power_not_digit h.power hr
  unfold leading? text
  simp only [List.append_assoc]
  rw [minus_append _ h.whole]
  dsimp only
  rw [digits?_append h.whole (fraction_not_digit _ hpower)]
  dsimp only
  rw [fraction?_append h.fraction hpower, power?_append h.power hr]

/-- The numeral of an integer. -/
def ofInt (i : Int) : Numeral := ⟨i < 0, Text.ofNat i.natAbs, none, none⟩

theorem text_ofInt (i : Int) : (ofInt i).text = Text.ofInt i := by
  unfold text ofInt Text.ofInt
  simp only [Option.elim, List.append_nil]

theorem ofInt_isWritten (i : Int) : (ofInt i).IsWritten where
  whole := Text.isDigits_ofNat _
  fraction := fun _ h => by cases h
  power := fun _ h => by cases h

theorem integer_ofInt (i : Int) : (ofInt i).integer = i := by
  unfold integer ofInt
  simp only [Text.digitsValue_ofNat, decide_eq_true_eq]
  split <;> omega

end Numeral

/-! ## Blanks -/

/-- The blank code points. -/
def blankPoints : List Nat :=
  [0x9, 0xA, 0xB, 0xC, 0xD, 0x1C, 0x1D, 0x1E, 0x1F, 0x20, 0x85, 0xA0, 0x1680, 0x2000, 0x2001, 0x2002, 0x2003, 0x2004,
   0x2005, 0x2006, 0x2007, 0x2008, 0x2009, 0x200A, 0x2028, 0x2029, 0x202F, 0x205F, 0x3000]

theorem mem_blankPoints {c : CodePoint} (h : c.isBlank = true) : c.val ∈ blankPoints := by
  obtain ⟨n, hn⟩ := c
  simp [CodePoint.isBlank, blankChanges, holdsAt] at h
  simp only [blankPoints, List.mem_cons, List.not_mem_nil, or_false]
  omega

/-- No blank is a digit or part of a name. -/
theorem blankPoints_not_word : ∀ n ∈ blankPoints, holdsAt n false digitChanges = false ∧
    holdsAt n false alphanumericChanges = false ∧ n ≠ 95 := by
  decide +kernel

theorem isBlank_of_isDigit {c : CodePoint} (h : c.isDigit = true) : c.isBlank = false := by
  by_contra hb
  have hdigit := (blankPoints_not_word _ (mem_blankPoints (by simpa using hb))).1
  exact absurd (h.symm.trans hdigit) (by decide)

theorem isBlank_of_isWord {c : CodePoint} (h : c.isWord = true) : c.isBlank = false := by
  by_contra hb
  obtain ⟨_, hword, hline⟩ := blankPoints_not_word _ (mem_blankPoints (by simpa using hb))
  rw [CodePoint.isWord, hword, Bool.or_false, beq_iff_eq] at h
  exact hline (congrArg Fin.val h)

/-! ## Names -/

/-- The text does not go on with a name. -/
def EndsName (r : Text) : Prop := ∀ c, r.head? = some c → c.isNameRest = false

theorem takeWhile_isNameRest {s r : Text} (h : ∀ c ∈ s, c.isNameRest = true) (hr : EndsName r) :
    (s ++ r).takeWhile CodePoint.isNameRest = s := by
  have htake : r.takeWhile CodePoint.isNameRest = [] := by
    cases r with
    | nil => rfl
    | cons c r => rw [List.takeWhile_cons, if_neg (by simp [hr c rfl])]
  rw [List.takeWhile_append_of_pos h, htake, List.append_nil]

/-! ## Longer lexemes -/

/-- Whether the code point starts a numeral, a name or a quoted text in single quotes. -/
def CodePoint.startsLong (c : CodePoint) : Bool := c.isDigit || c.isWord || c == '-' || c == '\''

/-- Neither a point nor a symbol nor an operator starts there. -/
theorem CodePoint.no_mark {c : CodePoint} (h : c.startsLong = true) (s : Text) :
    c ≠ '.' ∧ Lexeme.symbols.lookup c = none ∧ Lexeme.operator? c s = none := by
  have hne : ∀ {d : CodePoint}, d.startsLong = false → c ≠ d := by
    rintro _ hd rfl
    exact absurd (h.symm.trans hd) (by decide)
  have hkeys : ∀ p ∈ Lexeme.symbols, p.1.startsLong = false := by decide
  refine ⟨hne (by decide), ?_, ?_⟩
  · rw [List.lookup_eq_none_iff]
    intro p hp
    exact bne_iff_ne.2 (hne (hkeys p hp))
  · unfold Lexeme.operator?
    rw [if_neg (hne (by decide)), if_neg (hne (by decide)), if_neg (hne (by decide)), if_neg (hne (by decide))]

theorem leading_eq_number {c : CodePoint} {s r : Text} {m : Numeral} (h : c.startsLong = true)
    (hm : Numeral.leading? (c :: s) = some (m, r)) (n : Nat) :
    Lexeme.leading c s n = .ok (.number m, m.text.length - 1) := by
  obtain ⟨hdot, hlookup, hoperator⟩ := c.no_mark h s
  unfold Lexeme.leading
  simp only [if_neg hdot, hlookup, hoperator, hm]

theorem leading_eq_quoted {c : CodePoint} {s : Text} (h : c.startsLong = true)
    (hm : Numeral.leading? (c :: s) = none) (hquote : c = '\'') (n : Nat) :
    Lexeme.leading c s n = Lexeme.quoted c s n := by
  obtain ⟨hdot, hlookup, hoperator⟩ := c.no_mark h s
  unfold Lexeme.leading
  simp only [if_neg hdot, hlookup, hoperator, hm, if_pos (Or.inl hquote)]

theorem leading_eq_name {c : CodePoint} {s : Text} (h : c.startsLong = true)
    (hm : Numeral.leading? (c :: s) = none) (hquote : ¬ (c = '\'' ∨ c = '"')) (hstart : c.isNameStart = true) (n : Nat) :
    Lexeme.leading c s n =
      .ok (.name c (s.takeWhile CodePoint.isNameRest), (s.takeWhile CodePoint.isNameRest).length) := by
  obtain ⟨hdot, hlookup, hoperator⟩ := c.no_mark h s
  unfold Lexeme.leading
  simp only [if_neg hdot, hlookup, hoperator, hm, if_neg hquote, if_pos hstart]

theorem width_writtenPiece (s : Text) :
    (s.map writtenPiece).foldr (fun p k => p.width + k) 0 = (s.flatMap quotedPoint).length := by
  induction s with
  | nil => rfl
  | cons c s ih =>
    have hwidth : (writtenPiece c).width = (quotedPoint c).length := by
      unfold writtenPiece quotedPoint
      split <;> rfl
    rw [List.map_cons, List.foldr_cons, List.flatMap_cons, List.length_append, ih, hwidth]

/-- A quoted text is one lexeme in front of anything. -/
theorem leading_quoted (s r : Text) (n : Nat) :
    Lexeme.leading '\'' ((s.flatMap quotedPoint ++ chars ['\'']) ++ r) n =
      .ok (.string s, (s.flatMap quotedPoint ++ chars ['\'']).length) := by
  have hleading : ∀ t, Numeral.leading? (CodePoint.ofChar '\'' :: t) = none := fun _ => rfl
  rw [leading_eq_quoted (by decide) (hleading _) rfl, Lexeme.quoted, pieces?_quoted]
  dsimp only
  rw [decode_map_writtenPiece]
  dsimp only
  rw [width_writtenPiece, List.length_append]
  rfl

/-! ## Lexemes of a text -/

/-- The lexemes of the text, wherever it starts, are `xs`. -/
def Lexes (s : Text) (xs : List Lexeme) : Prop :=
  ∀ n, ∃ ls, lexemesFrom n s = .ok ls ∧ ls.map Placed.lexeme = xs

namespace Lexes

theorem nil : Lexes [] [] := fun n => ⟨[], lexemesFrom_nil n, rfl⟩

variable {r : Text} {xs : List Lexeme}

theorem blank {c : CodePoint} (hc : c.isBlank = true) (hr : Lexes r xs) : Lexes (c :: r) xs := by
  intro n
  obtain ⟨ls, hls, hxs⟩ := hr (n + 1)
  exact ⟨ls, lexemesFrom_blank hc hls, hxs⟩

/-- A lexeme in front of the others. -/
theorem lexeme {c : CodePoint} (s : Text) {x : Lexeme} (hc : c.isBlank = false)
    (h : ∀ n, Lexeme.leading c (s ++ r) n = .ok (x, s.length)) (hr : Lexes r xs) :
    Lexes (c :: (s ++ r)) (x :: xs) := by
  intro n
  obtain ⟨ls, hls, hxs⟩ := hr (n + 1 + s.length)
  exact ⟨⟨x, n⟩ :: ls, lexemesFrom_lexeme hc (h n) (by rw [List.drop_left, hls]), by rw [List.map_cons, hxs]⟩

theorem symbol {c : CodePoint} {x : Lexeme} (h : Lexeme.symbols.lookup c = some x) (hr : Lexes r xs) :
    Lexes (c :: r) (x :: xs) := by
  have hkey : ∀ p ∈ Lexeme.symbols, p.1.isBlank = false ∧ p.1 ≠ '.' := by decide
  obtain ⟨before, behind, hsplit, _⟩ := List.lookup_eq_some_iff.1 h
  obtain ⟨hc, hdot⟩ := hkey (c, x) (by simp [hsplit])
  refine lexeme [] hc (fun n => ?_) hr
  unfold Lexeme.leading
  rw [if_neg hdot, h]
  rfl

theorem dot (hdot : r.head? ≠ some ('.' : CodePoint)) (hr : Lexes r xs) : Lexes (chars ['.'] ++ r) (.dot :: xs) := by
  refine lexeme [] (by decide) (fun n => ?_) hr
  unfold Lexeme.leading
  rw [if_pos rfl, List.nil_append, if_neg (by simpa using hdot)]
  rfl

theorem dots (hr : Lexes r xs) : Lexes (chars ['.', '.'] ++ r) (.dots :: xs) :=
  lexeme (chars ['.']) (by decide) (fun _ => rfl) hr

/-- An operator in front of a space. -/
theorem operator (op : Operator) (hr : Lexes r xs) :
    Lexes (op.text ++ (chars [' '] ++ r)) (.operator op :: xs) := by
  have hspace : Lexes (chars [' '] ++ r) xs := blank (by decide) hr
  cases op with
  | eq => exact lexeme (chars ['=']) (by decide) (fun _ => rfl) hspace
  | ne => exact lexeme (chars ['=']) (by decide) (fun _ => rfl) hspace
  | le => exact lexeme (chars ['=']) (by decide) (fun _ => rfl) hspace
  | lt => exact lexeme [] (by decide) (fun _ => rfl) hspace
  | ge => exact lexeme (chars ['=']) (by decide) (fun _ => rfl) hspace
  | gt => exact lexeme [] (by decide) (fun _ => rfl) hspace

theorem number {n : Numeral} (h : n.IsWritten) (hend : EndsNumeral r) (hr : Lexes r xs) :
    Lexes (n.text ++ r) (.number n :: xs) := by
  have hleading := Numeral.leading?_text h hend
  obtain ⟨c, s, htext, hc⟩ : ∃ c s, n.text = c :: s ∧ (c.isDigit = true ∨ c = '-') := by
    have hmem := h.whole.2
    obtain ⟨negative, whole, fraction, power⟩ := n
    cases negative with
    | true => exact ⟨_, _, rfl, Or.inr rfl⟩
    | false =>
      cases whole with
      | nil => exact absurd rfl h.whole.1
      | cons d ds => exact ⟨d, _, rfl, Or.inl (hmem d (List.mem_cons_self ..))⟩
  have hblank : c.isBlank = false := by
    rcases hc with hc | rfl
    · exact isBlank_of_isDigit hc
    · decide
  have hstart : c.startsLong = true := by
    rcases hc with hc | hc
    · simp [CodePoint.startsLong, hc]
    · rw [hc]
      decide
  rw [htext, List.cons_append] at hleading
  rw [htext]
  refine lexeme s hblank (fun k => ?_) hr
  rw [leading_eq_number hstart hleading, htext]
  rfl

theorem integer (i : Int) (hend : EndsNumeral r) (hr : Lexes r xs) :
    Lexes (Text.ofInt i ++ r) (.number (.ofInt i) :: xs) := by
  rw [← Numeral.text_ofInt]
  exact number (Numeral.ofInt_isWritten i) hend hr

/-- A quoted text may stand in front of anything. -/
theorem string (s : Text) (hr : Lexes r xs) : Lexes (s.quoted ++ r) (.string s :: xs) :=
  lexeme (s.flatMap quotedPoint ++ chars ['\'']) (by decide) (leading_quoted s r) hr

theorem name {c : CodePoint} {s : Text} (h : Text.isName (c :: s) = true) (hend : EndsName r) (hr : Lexes r xs) :
    Lexes ((c :: s) ++ r) (.name c s :: xs) := by
  obtain ⟨hstart, hrest⟩ := Bool.and_eq_true_iff.1 h
  obtain ⟨hword, hdigit⟩ := Bool.and_eq_true_iff.1 hstart
  have hdigit : c.isDigit = false := by simpa using hdigit
  have hminus : c ≠ '-' := by
    rintro rfl
    exact absurd hword (by decide)
  have hquote : ¬ (c = '\'' ∨ c = '"') := by
    rintro (rfl | rfl)
    · exact absurd hword (by decide)
    · exact absurd hword (by decide)
  have hleading : Numeral.leading? (c :: (s ++ r)) = none := by
    have hsign : Numeral.minus (c :: (s ++ r)) = (false, c :: (s ++ r)) := if_neg hminus
    unfold Numeral.leading?
    rw [hsign]
    dsimp only
    rw [Numeral.digits?_of_not_digit hdigit]
  refine lexeme s (isBlank_of_isWord hword) (fun n => ?_) hr
  rw [leading_eq_name (by simp [CodePoint.startsLong, hword]) hleading hquote hstart,
    takeWhile_isNameRest (List.all_eq_true.1 hrest) hend]

end Lexes

end TreePath
