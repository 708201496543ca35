import TreePath.Proofs.Placing

/-!
# Where a lexeme ends

A lexeme that starts a text is known from its own code points, and from what follows it only as far as that might
prolong it.

* What stands behind a lexeme can be cut off (`Lexeme.leading_of_append`).
* A delimiter, such as a blank or a quote, prolongs no lexeme, so that with any text it can be put behind one
  (`Lexeme.leading_append_delimiter`).

Hence the lexemes of a text stand in front of a delimiter as they stand alone (`lexemesFrom_append_delimiter`).
-/

namespace TreePath

/-! ## Delimiters and quotes -/

/-- Whether the code point prolongs no lexeme that stands in front of it. -/
def CodePoint.isDelimiter (c : CodePoint) : Bool := !(c.isDigit || c.isNameRest || c == '.' || c == '=' || c == '+')

theorem CodePoint.isDelimiter_iff {c : CodePoint} :
    c.isDelimiter = true ↔ c.isDigit = false ∧ c.isNameRest = false ∧ c ≠ '.' ∧ c ≠ '=' ∧ c ≠ '+' := by
  simp [isDelimiter, and_assoc]

theorem CodePoint.isDelimiter_of_isBlank {c : CodePoint} (h : c.isBlank = true) : c.isDelimiter = true := by
  have hne : ∀ d : CodePoint, d.isBlank = false → c ≠ d := by
    rintro _ hd rfl
    exact absurd (h.symm.trans hd) (by decide)
  have hdigit : c.isDigit = false := by
    by_contra hd
    exact absurd (h.symm.trans (isBlank_of_isDigit (by simpa using hd))) (by decide)
  have hword : c.isWord = false := by
    by_contra hw
    exact absurd (h.symm.trans (isBlank_of_isWord (by simpa using hw))) (by decide)
  have hhyphen : (c == '-') = false := beq_false_of_ne (hne _ (by decide))
  rw [isDelimiter_iff, isNameRest, hword, hhyphen]
  exact ⟨hdigit, rfl, hne _ (by decide), hne _ (by decide), hne _ (by decide)⟩

/-- A delimiter is none of the code points that a numeral may go on with. -/
theorem CodePoint.ne_of_isDelimiter {b c : CodePoint} (hb : b.isDelimiter = true) (hc : c.isDelimiter = false) :
    b ≠ c := by
  rintro rfl
  exact absurd (hb.symm.trans hc) (by decide)

/-- One of the two code points that a quoted text stands between. -/
def CodePoint.IsQuote (c : CodePoint) : Prop := c = '\'' ∨ c = '"'

theorem CodePoint.IsQuote.ne_backslash {q : CodePoint} (h : q.IsQuote) : q ≠ '\\' := by
  rcases h with rfl | rfl <;> decide

theorem CodePoint.IsQuote.isDelimiter {q : CodePoint} (h : q.IsQuote) : q.isDelimiter = true := by
  rcases h with rfl | rfl <;> decide

/-! ## Numerals -/

section

variable {p : CodePoint → Bool} {b : CodePoint}

theorem takeWhile_append_cons (hb : p b = false) (s r : Text) : (s ++ b :: r).takeWhile p = s.takeWhile p := by
  induction s with
  | nil => rw [List.nil_append, List.takeWhile_cons, if_neg (by simp [hb]), List.takeWhile_nil]
  | cons c s ih => rw [List.cons_append, List.takeWhile_cons, List.takeWhile_cons, ih]

theorem dropWhile_append_cons (hb : p b = false) (s r : Text) :
    (s ++ b :: r).dropWhile p = s.dropWhile p ++ b :: r := by
  induction s with
  | nil => rw [List.nil_append, List.dropWhile_cons, if_neg (by simp [hb]), List.dropWhile_nil, List.nil_append]
  | cons c s ih =>
    rw [List.cons_append, List.dropWhile_cons, List.dropWhile_cons]
    split
    · exact ih
    · rfl

/-- What is taken from the first of two texts does not depend on the second. -/
theorem takeWhile_of_append {s r : Text} (h : ((s ++ r).takeWhile p).length ≤ s.length) :
    s.takeWhile p = (s ++ r).takeWhile p := by
  induction s with
  | nil => exact (List.eq_nil_of_length_eq_zero (Nat.le_zero.1 h)).symm
  | cons c s ih =>
    rw [List.cons_append, List.takeWhile_cons] at h
    rw [List.cons_append, List.takeWhile_cons, List.takeWhile_cons]
    split
    · rename_i hc
      rw [if_pos hc, List.length_cons, List.length_cons, Nat.add_le_add_iff_right] at h
      rw [ih h]
    · rfl

end

namespace Numeral

/-- A sign is the first code point, so it is the same with more behind a text that has one. -/
theorem minus_append_of {s r : Text} (h : s = [] → minus r = (false, r)) :
    minus (s ++ r) = ((minus s).1, (minus s).2 ++ r) := by
  cases s with
  | nil => exact h rfl
  | cons c s =>
    rw [List.cons_append, minus, minus]
    split <;> rfl

theorem powerSign_append_of {s r : Text} (h : s = [] → powerSign r = (none, r)) :
    powerSign (s ++ r) = ((powerSign s).1, (powerSign s).2 ++ r) := by
  cases s with
  | nil => exact h rfl
  | cons c s =>
    rw [List.cons_append, powerSign, powerSign]
    split <;> rfl

section

variable {b : CodePoint} (hb : b.isDelimiter = true) (s r : Text)

include hb

theorem digits?_append_delimiter : digits? (s ++ b :: r) = (digits? s).map (Prod.map id (· ++ b :: r)) := by
  have hdigit := (CodePoint.isDelimiter_iff.1 hb).1
  unfold digits?
  dsimp only
  rw [takeWhile_append_cons hdigit, dropWhile_append_cons hdigit]
  split <;> rfl

theorem minus_append_delimiter : minus (s ++ b :: r) = ((minus s).1, (minus s).2 ++ b :: r) :=
  minus_append_of fun _ => if_neg (CodePoint.ne_of_isDelimiter hb (by decide))

theorem fraction?_append_delimiter :
    fraction? (s ++ b :: r) = ((fraction? s).1, (fraction? s).2 ++ b :: r) := by
  cases s with
  | nil => exact if_neg (CodePoint.ne_of_isDelimiter hb (by decide))
  | cons c s =>
    rw [List.cons_append, fraction?, fraction?, digits?_append_delimiter hb]
    cases digits? s with
    | none => split <;> rfl
    | some x => split <;> rfl

theorem powerSign_append_delimiter : powerSign (s ++ b :: r) = ((powerSign s).1, (powerSign s).2 ++ b :: r) := by
  refine powerSign_append_of fun _ => if_neg (not_or.2 ⟨?_, ?_⟩)
  · exact CodePoint.ne_of_isDelimiter hb (by decide)
  · exact CodePoint.ne_of_isDelimiter hb (by decide)

theorem power?_append_delimiter : power? (s ++ b :: r) = ((power? s).1, (power? s).2 ++ b :: r) := by
  cases s with
  | nil =>
    refine if_neg (not_or.2 ⟨?_, ?_⟩)
    · exact CodePoint.ne_of_isDelimiter hb (by decide)
    · exact CodePoint.ne_of_isDelimiter hb (by decide)
  | cons c s =>
    rw [List.cons_append, power?, power?, powerSign_append_delimiter hb, digits?_append_delimiter hb]
    cases digits? (powerSign s).2 with
    | none => split <;> rfl
    | some x => split <;> rfl

/-- A delimiter does not prolong a numeral. -/
theorem leading?_append_delimiter : leading? (s ++ b :: r) = (leading? s).map (Prod.map id (· ++ b :: r)) := by
  unfold leading?
  rw [minus_append_delimiter hb]
  dsimp only
  rw [digits?_append_delimiter hb]
  cases digits? (minus s).2 with
  | none => rfl
  | some x =>
    dsimp only [Option.map, Prod.map, id]
    rw [fraction?_append_delimiter hb, power?_append_delimiter hb]

end

section

variable {s r t : Text}

/-- Behind the digits at the start of a text stands no digit. -/
theorem digits?_head {ds : Text} (h : digits? s = some (ds, r)) : ∀ c, r.head? = some c → c.isDigit = false := by
  intro c hc
  unfold digits? at h
  dsimp only at h
  split at h
  · cases h
  · cases h
    by_contra hdigit
    have hnot := List.head?_dropWhile_not CodePoint.isDigit s
    rw [hc] at hnot
    exact hdigit hnot

theorem digits?_of_append {ds : Text} (h : digits? (s ++ r) = some (ds, t ++ r)) : digits? s = some (ds, t) := by
  obtain ⟨hs, hdigits⟩ := digits?_eq_some h
  rw [← List.append_assoc] at hs
  obtain rfl := List.append_cancel_right hs
  refine digits?_append hdigits fun c hc => digits?_head h c ?_
  cases t with
  | nil => cases hc
  | cons d t => exact hc

theorem digits?_eq_none_of_append (h : digits? (s ++ r) = none) : digits? s = none := by
  cases s with
  | nil => rfl
  | cons c s =>
    by_cases hc : c.isDigit = true
    · simp [digits?, hc] at h
    · exact digits?_of_not_digit (by simpa using hc)

/-- A text in front of a part of itself adds nothing. -/
theorem eq_nil_of_eq_append {u : Text} (h : r = u ++ (t ++ r)) : u = [] ∧ t = [] := by
  have hlength := congrArg List.length h
  simp only [List.length_append] at hlength
  exact ⟨List.eq_nil_of_length_eq_zero (by omega), List.eq_nil_of_length_eq_zero (by omega)⟩

theorem fraction?_of_append {f : Option Text} (h : fraction? (s ++ r) = (f, t ++ r)) : fraction? s = (f, t) := by
  have htext := (fraction?_eq (s ++ r)).1
  rw [h] at htext
  cases s with
  | nil =>
    obtain ⟨hnil, rfl⟩ := eq_nil_of_eq_append htext
    cases f with
    | none => rfl
    | some ds => cases hnil
  | cons c s =>
    rw [List.cons_append, fraction?] at h
    rw [fraction?]
    split at h
    · rename_i hc
      rw [if_pos hc]
      split at h
      · rename_i ds u hds
        cases h
        rw [digits?_of_append hds]
      · rename_i hds
        obtain ⟨rfl, ht⟩ := Prod.mk.inj h
        obtain rfl : c :: s = t := List.append_cancel_right ht
        rw [digits?_eq_none_of_append hds]
    · rename_i hc
      obtain ⟨rfl, ht⟩ := Prod.mk.inj h
      obtain rfl : c :: s = t := List.append_cancel_right ht
      rw [if_neg hc]

theorem power?_of_append {p : Option Power} (h : power? (s ++ r) = (p, t ++ r)) : power? s = (p, t) := by
  have htext := (power?_eq (s ++ r)).1
  rw [h] at htext
  cases s with
  | nil =>
    obtain ⟨hnil, rfl⟩ := eq_nil_of_eq_append htext
    cases p with
    | none => rfl
    | some p => cases hnil
  | cons c s =>
    rw [List.cons_append, power?] at h
    rw [power?]
    split at h
    · rename_i hc
      rw [if_pos hc]
      have hsign : s ≠ [] → powerSign (s ++ r) = ((powerSign s).1, (powerSign s).2 ++ r) := fun hs =>
        powerSign_append_of fun h => absurd h hs
      split at h
      · rename_i ds u hds
        cases h
        have hs : s ≠ [] := by
          rintro rfl
          obtain ⟨hnil, _⟩ := eq_nil_of_eq_append (List.cons.inj htext).2
          exact (digits?_eq_some hds).2.1 (List.append_eq_nil_iff.1 hnil).2
        rw [hsign hs] at hds ⊢
        rw [digits?_of_append hds]
      · rename_i hds
        obtain ⟨rfl, ht⟩ := Prod.mk.inj h
        obtain rfl : c :: s = t := List.append_cancel_right ht
        have hnone : digits? (powerSign s).2 = none := by
          by_cases hs : s = []
          · rw [hs]; rfl
          · rw [hsign hs] at hds
            exact digits?_eq_none_of_append hds
        rw [hnone]
    · rename_i hc
      obtain ⟨rfl, ht⟩ := Prod.mk.inj h
      obtain rfl : c :: s = t := List.append_cancel_right ht
      rw [if_neg hc]

/-- A numeral is the longest one also where what follows it is cut off. -/
theorem leading?_of_append {n : Numeral} (hs : s ≠ []) (h : leading? (s ++ r) = some (n, t ++ r)) :
    leading? s = some (n, t) := by
  unfold leading? at h ⊢
  rw [minus_append_of fun he => absurd he hs] at h
  dsimp only at h ⊢
  split at h
  · cases h
  · rename_i whole u hwhole
    -- Each part leaves a text that ends in what is cut off, since the last one does.
    generalize hf : fraction? u = x at h
    obtain ⟨f, v⟩ := x
    generalize hp : power? v = y at h
    obtain ⟨p, w⟩ := y
    obtain ⟨rfl, rfl⟩ := Prod.mk.inj (Option.some.inj h)
    obtain ⟨v, rfl⟩ : ∃ v', v = v' ++ r := by
      have htext := (power?_eq v).1
      rw [hp, ← List.append_assoc] at htext
      exact ⟨_, htext⟩
    obtain ⟨u, rfl⟩ : ∃ u', u = u' ++ r := by
      have htext := (fraction?_eq u).1
      rw [hf, ← List.append_assoc] at htext
      exact ⟨_, htext⟩
    rw [digits?_of_append hwhole]
    dsimp only
    rw [fraction?_of_append hf]
    dsimp only
    rw [power?_of_append hp]

theorem leading?_eq_none_of_append (hs : s ≠ []) (h : leading? (s ++ r) = none) : leading? s = none := by
  unfold leading? at h ⊢
  rw [minus_append_of fun he => absurd he hs] at h
  dsimp only at h ⊢
  split at h
  · rename_i hwhole
    rw [digits?_eq_none_of_append hwhole]
  · cases h

end

end Numeral

/-! ## Other lexemes -/

theorem head?_append_ne {b d : CodePoint} (hd : b ≠ d) (s r : Text) :
    ((s ++ b :: r).head? == some d) = (s.head? == some d) := by
  cases s with
  | nil => simpa using hd
  | cons c s => rfl

theorem one_le_length_of_head? {d : CodePoint} {s : Text} (h : (s.head? == some d) = true) : 1 ≤ s.length := by
  cases s with
  | nil => cases h
  | cons c s => exact Nat.le_add_left 1 s.length

theorem take_one_of_head? {d : CodePoint} {s : Text} (h : (s.head? == some d) = true) : s.take 1 = [d] := by
  cases s with
  | nil => cases h
  | cons c s => simpa using h

/-- The first code point is the same where something is cut off, unless everything is. -/
theorem head?_of_append {d : CodePoint} {s : Text} (r : Text) (hs : 1 ≤ s.length) :
    (s.head? == some d) = ((s ++ r).head? == some d) := by
  cases s with
  | nil => cases hs
  | cons c s => rfl

theorem head?_of_append_eq_false {d : CodePoint} {s r : Text} (h : ((s ++ r).head? == some d) = false) :
    (s.head? == some d) = false := by
  cases s with
  | nil => rfl
  | cons c s => exact h

namespace Lexeme

theorem operator?_le {c : CodePoint} {s : Text} {op : Operator} {k : Nat} (h : operator? c s = some (op, k)) :
    k ≤ s.length := by
  have hequals : k = 0 ∨ (k = 1 ∧ (s.head? == some ('=' : CodePoint)) = true) := by
    unfold operator? at h
    dsimp only at h
    repeat' split at h
    all_goals cases h
    all_goals simp_all
  rcases hequals with rfl | ⟨rfl, hhead⟩
  · exact Nat.zero_le _
  · exact one_le_length_of_head? hhead

theorem operator?_append_delimiter {b : CodePoint} (hb : b.isDelimiter = true) (c : CodePoint) (s r : Text) :
    operator? c (s ++ b :: r) = operator? c s := by
  unfold operator?
  rw [head?_append_ne (CodePoint.ne_of_isDelimiter hb (by decide))]

/-- An operator is the same where something behind it is cut off, and none comes to be. -/
theorem operator?_of_append {c : CodePoint} {s r : Text}
    (h : ∀ op k, operator? c (s ++ r) = some (op, k) → k ≤ s.length) : operator? c s = operator? c (s ++ r) := by
  cases s with
  | cons d s => rfl
  | nil =>
    cases hhead : ([] ++ r).head? == some ('=' : CodePoint) with
    | false =>
      unfold operator?
      rw [hhead]
      rfl
    | true =>
      unfold operator? at h ⊢
      simp only [hhead, if_true] at h ⊢
      repeat' split
      all_goals simp_all

/-- Where pieces start matters for faults only. -/
theorem decode_of_decode {n : Nat} {ps : List Piece} {t : Text} (h : decode n ps = .ok t) (m : Nat) :
    decode m ps = .ok t := by
  fun_induction decode n ps generalizing t m with
  | case1 n => rw [decode]; exact h
  | case2 n c ps ih =>
    obtain ⟨u, hu, rfl⟩ := map_eq_ok.1 h
    rw [decode, ih hu (m + 1)]
    rfl
  | case3 n ps x hx ih =>
    obtain ⟨u, hu, rfl⟩ := map_eq_ok.1 h
    rw [decode, if_pos rfl, hx]
    dsimp only
    rw [ih hu (m + 6)]
    rfl
  | case4 => cases h
  | case5 n e ps he x hx ih =>
    obtain ⟨u, hu, rfl⟩ := map_eq_ok.1 h
    rw [decode, if_neg he, hx]
    dsimp only
    rw [ih hu (m + 2)]
    rfl
  | case6 => cases h

/-- A quoted text is read up to its closing quote, so that what follows this quote does not matter. -/
theorem quoted_eq_ok {c : CodePoint} (hc : c ≠ '\\') {s : Text} {n k : Nat} {x : Lexeme}
    (h : quoted c s n = .ok (x, k)) : ∃ body rest, s = body ++ rest ∧ body.length = k ∧
      ∀ r m, quoted c (body ++ r) m = .ok (x, k) := by
  unfold quoted at h
  split at h
  · cases h
  · rename_i ps rest hps
    obtain ⟨hs, hopen⟩ := pieces?_eq_some hps
    split at h
    · rename_i t ht
      cases h
      refine ⟨Piece.source ps ++ [c], rest, by simpa using hs, ?_, fun r m => ?_⟩
      · rw [Piece.width_eq_length, List.length_append, List.length_singleton]
      · rw [List.append_assoc, List.singleton_append, quoted, pieces?_source hc hopen]
        dsimp only
        rw [decode_of_decode ht]
    · cases h

/-- A quoted text may stand in front of anything. -/
theorem quoted_append {c : CodePoint} (hc : c ≠ '\\') {s : Text} {n k : Nat} {x : Lexeme}
    (h : quoted c s n = .ok (x, k)) (r : Text) (m : Nat) : quoted c (s ++ r) m = .ok (x, k) ∧ k ≤ s.length := by
  obtain ⟨body, rest, rfl, rfl, hbody⟩ := quoted_eq_ok hc h
  rw [List.append_assoc]
  exact ⟨hbody _ m, by simp⟩

/-- What follows the closing quote can be cut off. -/
theorem quoted_of_append {c : CodePoint} (hc : c ≠ '\\') {s r : Text} {n k : Nat} {x : Lexeme}
    (h : quoted c (s ++ r) n = .ok (x, k)) (hk : k ≤ s.length) (m : Nat) : quoted c s m = .ok (x, k) := by
  obtain ⟨body, rest, hs, rfl, hbody⟩ := quoted_eq_ok hc h
  obtain ⟨t, rfl⟩ : body <+: s := List.prefix_of_prefix_length_le ⟨rest, hs.symm⟩ ⟨r, rfl⟩ hk
  exact hbody t m

/-- **What follows a lexeme can be cut off.** -/
theorem leading_of_append {c : CodePoint} {s r : Text} {n k : Nat} {x : Lexeme}
    (h : leading c (s ++ r) n = .ok (x, k)) (hk : k ≤ s.length) (m : Nat) : leading c s m = .ok (x, k) := by
  unfold leading at h ⊢
  rw [← List.cons_append] at h
  split at h
  · rename_i hdot
    rw [if_pos hdot]
    split at h
    · rename_i hdots
      cases h
      rw [head?_of_append r hk, if_pos hdots]
    · rename_i hdots
      cases h
      rw [if_neg]
      rw [Bool.not_eq_true] at hdots ⊢
      exact head?_of_append_eq_false hdots
  · rename_i hdot
    rw [if_neg hdot]
    split at h
    · cases h
      rfl
    · rename_i hsymbol
      have hop : operator? c s = operator? c (s ++ r) := by
        refine operator?_of_append fun op j hj => ?_
        rw [hj] at h
        cases h
        exact hk
      rw [hop]
      split at h
      · cases h
        rfl
      · split at h
        · rename_i numeral rest hnumeral
          cases h
          have htext := (Numeral.leading?_eq_some hnumeral).1
          obtain ⟨t, ht⟩ : numeral.text <+: c :: s := by
            refine List.prefix_of_prefix_length_le ⟨rest, htext.symm⟩ ⟨r, rfl⟩ ?_
            rw [List.length_cons]
            omega
          rw [← ht, List.append_assoc] at htext
          obtain rfl := List.append_cancel_left htext
          rw [Numeral.leading?_of_append (List.cons_ne_nil c s) hnumeral]
        · rename_i hnumeral
          rw [Numeral.leading?_eq_none_of_append (List.cons_ne_nil c s) hnumeral]
          dsimp only
          split at h
          · rename_i hquote
            rw [if_pos hquote]
            exact quoted_of_append (CodePoint.IsQuote.ne_backslash hquote) h hk m
          · rename_i hquote
            rw [if_neg hquote]
            split at h
            · rename_i hstart
              cases h
              rw [if_pos hstart, takeWhile_of_append hk]
            · cases h

/-- **A delimiter does not prolong a lexeme.** -/
theorem leading_append_delimiter {b : CodePoint} (hb : b.isDelimiter = true) {c : CodePoint} {s : Text} {n k : Nat}
    {x : Lexeme} (h : leading c s n = .ok (x, k)) (r : Text) (m : Nat) :
    leading c (s ++ b :: r) m = .ok (x, k) ∧ k ≤ s.length := by
  unfold leading at h ⊢
  rw [head?_append_ne (CodePoint.ne_of_isDelimiter hb (by decide)), operator?_append_delimiter hb, ← List.cons_append,
    Numeral.leading?_append_delimiter hb]
  split at h
  · rename_i hdot
    rw [if_pos hdot]
    split at h
    · rename_i hdots
      cases h
      exact ⟨if_pos hdots, one_le_length_of_head? hdots⟩
    · rename_i hdots
      cases h
      exact ⟨if_neg hdots, Nat.zero_le _⟩
  · rename_i hdot
    rw [if_neg hdot]
    split at h
    · cases h
      exact ⟨rfl, Nat.zero_le _⟩
    · split at h
      · rename_i hop
        cases h
        exact ⟨rfl, operator?_le hop⟩
      · split at h
        · rename_i hm
          cases h
          rw [hm]
          refine ⟨rfl, ?_⟩
          have hlength := congrArg List.length (Numeral.leading?_eq_some hm).1
          rw [List.length_append, List.length_cons] at hlength
          omega
        · rename_i hm
          rw [hm, Option.map_none]
          dsimp only
          split at h
          · rename_i hquote
            rw [if_pos hquote]
            exact quoted_append (CodePoint.IsQuote.ne_backslash hquote) h _ m
          · rename_i hquote
            rw [if_neg hquote, takeWhile_append_cons (CodePoint.isDelimiter_iff.1 hb).2.1]
            split at h
            · rename_i hstart
              cases h
              exact ⟨if_pos hstart, (List.takeWhile_prefix _).length_le⟩
            · cases h

/-- A lexeme takes no more than there is. -/
theorem leading_le {c : CodePoint} {s : Text} {n k : Nat} {x : Lexeme} (h : leading c s n = .ok (x, k)) :
    k ≤ s.length := (leading_append_delimiter (by decide : CodePoint.isDelimiter (' ' : CodePoint) = true) h [] 0).2

/-- Where a lexeme starts does not matter to it. -/
theorem leading_of_leading {c : CodePoint} {s : Text} {n k : Nat} {x : Lexeme} (h : leading c s n = .ok (x, k))
    (m : Nat) : leading c s m = .ok (x, k) := by
  have hk := leading_le h
  rw [← List.append_nil s] at h
  exact leading_of_append h hk m

end Lexeme

/-! ## Texts -/

/-- **The lexemes of a text stand in front of a delimiter** as they stand alone. -/
theorem lexemesFrom_append_delimiter {b : CodePoint} (hb : b.isDelimiter = true) {n : Nat} {s : Text}
    {ls : List Placed} (h : lexemesFrom n s = .ok ls) (r : Text) :
    lexemesFrom n (s ++ b :: r) = (lexemesFrom (n + s.length) (b :: r)).map (ls ++ ·) := by
  fun_induction lexemesFrom n s generalizing ls with
  | case1 n =>
    cases h
    rw [List.nil_append, List.length_nil, Nat.add_zero]
    cases lexemesFrom n (b :: r) <;> rfl
  | case2 n c s hc ih =>
    rw [List.cons_append, lexemesFrom, if_pos hc, ih h, List.length_cons, Nat.add_assoc, Nat.add_comm 1]
  | case3 n c s hc e he => cases h
  | case4 n c s hc x k hx ih =>
    obtain ⟨ls, hls, rfl⟩ := map_eq_ok.1 h
    obtain ⟨hleading, hk⟩ := Lexeme.leading_append_delimiter hb hx r n
    have hlength : n + 1 + k + (s.drop k).length = n + (c :: s).length := by
      rw [List.length_drop, List.length_cons]
      omega
    rw [List.cons_append, lexemesFrom, if_neg hc, hleading]
    dsimp only
    rw [List.drop_append_of_le_length hk, ih hls, hlength]
    cases lexemesFrom (n + (c :: s).length) (b :: r) <;> rfl

/-- The lexemes of a text and those of another one, with a space between. -/
theorem Lexes.append_space {n : Nat} {s : Text} {ls : List Placed} (h : lexemesFrom n s = .ok ls) {r : Text}
    {xs : List Lexeme} (hr : Lexes r xs) : Lexes (s ++ (chars [' '] ++ r)) (ls.map Placed.lexeme ++ xs) := by
  have hspace : CodePoint.isDelimiter (' ' : CodePoint) = true := by decide
  fun_induction lexemesFrom n s generalizing ls with
  | case1 n =>
    cases h
    exact Lexes.blank (by decide) hr
  | case2 n c s hc ih => exact Lexes.blank hc (ih h)
  | case3 n c s hc e he => cases h
  | case4 n c s hc x k hx ih =>
    obtain ⟨ls, hls, rfl⟩ := map_eq_ok.1 h
    have hrest := ih hls
    have hk := Lexeme.leading_le hx
    have hsplit : s ++ (chars [' '] ++ r) = s.take k ++ (s.drop k ++ (chars [' '] ++ r)) := by
      rw [← List.append_assoc (s.take k), List.take_append_drop]
    have hlength : (s.take k).length = k := by
      rw [List.length_take]
      omega
    rw [List.cons_append, hsplit]
    refine Lexes.lexeme (s.take k) (by simpa using hc) (fun m => ?_) hrest
    rw [← hsplit, hlength]
    exact (Lexeme.leading_append_delimiter hspace hx r m).1

end TreePath
