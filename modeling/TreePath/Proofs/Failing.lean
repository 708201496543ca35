import TreePath.Proofs.Reading

/-!
# Where reading fails

A reading function leaves a part of the lexemes that it was given, and a failure points into them or blames a numeral
among them (`Within`). One lemma for each function says so, and `within` ties them together by induction on the number
of lexemes. Hence a text whose integer numerals are short compiles or is malformed (`whole_blames`).
-/

namespace TreePath.Parse

/-! ## Failures and results within some lexemes -/

/-- The failure points at some of the last lexemes, or the number of digits is the one of an integer numeral among the
lexemes that is too long to be read. -/
def Failure.Within (ls : List Placed) : Failure → Prop
  | .fault _ left => left <:+ ls
  | .tooManyDigits k =>
    ∃ n, Lexeme.number n ∈ ls.map Placed.lexeme ∧ n.isInteger = true ∧ n.whole.length = k ∧ digitLimit < k

/-- What is left is the last part of the lexemes, or the failure is within them. -/
def Within {α : Type} (ls : List Placed) : Except Failure (α × List Placed) → Prop
  | .ok (_, left) => left <:+ ls
  | .error e => e.Within ls

theorem Failure.Within.mono {e : Failure} {ls ls' : List Placed} (h : e.Within ls') (hsuffix : ls' <:+ ls) :
    e.Within ls := by
  cases e with
  | fault f left => exact List.IsSuffix.trans h hsuffix
  | tooManyDigits k =>
    obtain ⟨n, hn, hinteger, hlength, hlong⟩ := h
    exact ⟨n, (hsuffix.map Placed.lexeme).subset hn, hinteger, hlength, hlong⟩

namespace Within

variable {α β : Type} {ls left : List Placed}

theorem mono {r : Except Failure (α × List Placed)} (h : Within left r) (hsuffix : left <:+ ls) : Within ls r := by
  cases r with
  | ok x => exact List.IsSuffix.trans h hsuffix
  | error e => exact Failure.Within.mono h hsuffix

theorem tail (x : Placed) {r : Except Failure (α × List Placed)} (h : Within ls r) : Within (x :: ls) r :=
  h.mono (List.suffix_cons x ls)

theorem bind {r : Except Failure (α × List Placed)} {f : α × List Placed → Except Failure (β × List Placed)}
    (h : Within ls r) (hf : ∀ x left, left <:+ ls → Within left (f (x, left))) : Within ls (r >>= f) := by
  cases r with
  | ok x => exact (hf x.1 x.2 h).mono h
  | error e => exact h

/-- What is read is turned into something else. -/
theorem map {r : Except Failure (α × List Placed)} {f : α × List Placed → β × List Placed} (h : Within ls r)
    (hf : ∀ x, (f x).2 = x.2) : Within ls (r.map f) := by
  cases r with
  | ok x => exact (congrArg (· <:+ ls) (hf x)).mpr h
  | error e => exact h

theorem suffix {r : Except Failure (α × List Placed)} {x : α} (h : Within ls r) (hr : r = .ok (x, left)) :
    left <:+ ls := by
  rw [hr] at h
  exact h

/-- The first lexeme alone is read. -/
theorem first {r : Except Failure α} (h : ∀ e, r = .error e → e.Within ls) (hleft : left <:+ ls) (f : α → β) :
    Within ls (r.map fun x => (f x, left)) := by
  cases r with
  | ok x => exact hleft
  | error e => exact h e rfl

end Within

/-! ## Numbers, literals and keys -/

theorem integer_within {n : Numeral} {p : Nat} {ls : List Placed} {e : Failure}
    (h : integer n (⟨.number n, p⟩ :: ls) = .error e) : e.Within (⟨.number n, p⟩ :: ls) := by
  unfold integer at h
  split at h
  · cases h
    exact List.suffix_refl _
  · rename_i hinteger
    split at h
    · rename_i hlong
      cases h
      exact ⟨n, List.mem_cons_self, by simpa using hinteger, rfl, hlong⟩
    · cases h

theorem positive_within {n : Numeral} {p : Nat} {ls : List Placed} {e : Failure}
    (h : positive n (⟨.number n, p⟩ :: ls) = .error e) : e.Within (⟨.number n, p⟩ :: ls) := by
  unfold positive at h
  cases hi : integer n (⟨.number n, p⟩ :: ls) with
  | error e' =>
    rw [hi] at h
    cases h
    exact integer_within hi
  | ok i =>
    rw [hi] at h
    change (if h : 0 < i then _ else _) = _ at h
    split at h
    · cases h
    · cases h
      exact List.suffix_refl _

theorem numberLiteral_within {n : Numeral} {p : Nat} {ls : List Placed} {e : Failure}
    (h : numberLiteral n (⟨.number n, p⟩ :: ls) = .error e) : e.Within (⟨.number n, p⟩ :: ls) := by
  unfold numberLiteral at h
  split at h
  · cases hi : integer n (⟨.number n, p⟩ :: ls) with
    | error e' =>
      rw [hi] at h
      cases h
      exact integer_within hi
    | ok i =>
      rw [hi] at h
      cases h
  · split at h
    · cases h
    · cases h
      exact List.suffix_refl _

theorem optionalInteger_within (ls : List Placed) : Within ls (plain (optionalInteger ls)) := by
  rw [plain_optionalInteger]
  split
  · exact Within.first (fun _ => integer_within) (List.suffix_cons _ _) some
  · exact List.suffix_refl _

theorem sliceFrom_within (start : Option Int) (ls : List Placed) : Within ls (plain (sliceFrom start ls)) := by
  rw [plain_sliceFrom]
  refine (optionalInteger_within ls).bind fun last left _ => ?_
  dsimp only
  split
  · exact Within.tail _ (Within.first (fun _ => positive_within) (List.suffix_cons _ _)
      fun k => (⟨start.getD 0, last, k.val, k.property⟩ : Slice))
  · exact List.suffix_cons _ _
  · exact List.suffix_refl _

theorem position_within (ls : List Placed) : Within ls (plain (position ls)) := by
  rw [plain_position]
  refine (optionalInteger_within ls).bind fun start left _ => ?_
  dsimp only
  split
  · exact Within.tail _ (Within.map (sliceFrom_within _ _) fun _ => rfl)
  · split
    · exact List.suffix_refl _
    · exact List.suffix_refl _

theorem literal_within (ls : List Placed) : Within ls (plain (literal ls)) := by
  rw [plain_literal]
  split
  · exact Within.first (fun _ => numberLiteral_within) (List.suffix_cons _ _) id
  · exact List.suffix_cons _ _
  · split
    · exact List.suffix_cons _ _
    · exact List.suffix_refl _
  · exact List.suffix_refl _

theorem descentKey_within (ls : List Placed) : Within ls (plain (descentKey ls)) := by
  rw [plain_descentKey]
  split
  · split
    · split
      · exact (List.suffix_cons _ _).trans (List.suffix_cons _ _)
      · exact List.suffix_cons _ _
    · exact List.suffix_refl _
  · exact List.suffix_refl _

/-! ## Paths -/

/-- The three functions that read repeated parts stay within `ls`. -/
structure WithinAt (ls : List Placed) : Prop where
  segments : Within ls (plain (segments ls))
  selectors : Within ls (plain (selectors ls))
  selector : Within ls (plain (selector ls))

theorem path_within {ls : List Placed} (ih : ∀ ls' : List Placed, ls'.length ≤ ls.length → WithinAt ls') :
    Within ls (plain (path ls)) := by
  rw [plain_path]
  split
  · exact Within.tail _ (Within.map (ih _ (by simp)).segments fun _ => rfl)
  · exact Within.tail _ (Within.map (ih _ (by simp)).segments fun _ => rfl)
  · exact Within.tail _ (Within.map (ih _ (by simp)).segments fun _ => rfl)
  · -- The start is missed where the path should have started, so this is no instance of `Within.bind`.
    have hsegments := (ih ls (Nat.le_refl _)).segments
    cases h : plain (segments ls) with
    | error e =>
      rw [h] at hsegments
      exact hsegments
    | ok x =>
      obtain ⟨ts, left⟩ := x
      rw [h] at hsegments
      cases ts with
      | nil => exact List.suffix_refl _
      | cons t ts => exact hsegments

theorem segments_within {ls : List Placed} (ih : ∀ ls' : List Placed, ls'.length < ls.length → WithinAt ls') :
    Within ls (plain (segments ls)) := by
  rw [plain_segments]
  split
  · refine Within.tail _ (Within.tail _ ?_)
    exact Within.map (ih _ (by simp only [List.length_cons]; omega)).segments fun _ => rfl
  · refine Within.tail _ (Within.tail _ ?_)
    exact Within.map (ih _ (by simp only [List.length_cons]; omega)).segments fun _ => rfl
  · exact List.suffix_cons _ _
  · refine Within.tail _ (Within.tail _ ?_)
    exact Within.map (ih _ (by simp only [List.length_cons]; omega)).segments fun _ => rfl
  · refine Within.tail _ (Within.tail _ ?_)
    refine (descentKey_within _).bind fun key left hleft => ?_
    have hle := hleft.length_le
    exact Within.map (ih left (by simp only [List.length_cons]; omega)).segments fun _ => rfl
  · exact List.suffix_cons _ _
  · apply Within.tail _
    refine (ih _ (by simp)).selector.bind fun s mid hmid => ?_
    have hle := hmid.length_le
    refine (ih mid (by simp only [List.length_cons]; omega)).selectors.bind fun ss left hleft => ?_
    have hle' := hleft.length_le
    dsimp only
    split
    · refine Within.tail _ (Within.map (ih _ ?_).segments fun _ => rfl)
      simp only [List.length_cons] at hle' ⊢
      omega
    · exact List.suffix_refl _
  · exact List.suffix_refl _

/-- Where no segment is read, nothing is taken. -/
theorem eq_of_segments_nil {ls left : List Placed} (h : plain (segments ls) = .ok ([], left)) : left = ls := by
  have hcons : ∀ (r : Except Failure (List Token × List Placed)) (t : Token),
      r.map (fun p => (t :: p.1, p.2)) ≠ .ok ([], left) := by
    intro r t hr
    obtain ⟨p, _, hp⟩ := map_eq_ok.1 hr
    cases hp
  rw [plain_segments] at h
  split at h
  · exact absurd h (hcons _ _)
  · exact absurd h (hcons _ _)
  · cases h
  · exact absurd h (hcons _ _)
  · obtain ⟨⟨key, ls⟩, _, h⟩ := bind_eq_ok.1 h
    exact absurd h (hcons _ _)
  · cases h
  · obtain ⟨⟨s, ls⟩, _, h⟩ := bind_eq_ok.1 h
    obtain ⟨⟨ss, ls⟩, _, h⟩ := bind_eq_ok.1 h
    dsimp only at h
    split at h
    · exact absurd h (hcons _ _)
    · cases h
  · cases h
    rfl

theorem selectors_within {ls : List Placed} (ih : ∀ ls' : List Placed, ls'.length < ls.length → WithinAt ls') :
    Within ls (plain (selectors ls)) := by
  rw [plain_selectors]
  split
  · apply Within.tail _
    refine (ih _ (by simp)).selector.bind fun s mid hmid => ?_
    have hle := hmid.length_le
    exact Within.map (ih mid (by simp only [List.length_cons]; omega)).selectors fun _ => rfl
  · exact List.suffix_refl _

theorem comparison_within (p : Token × List Token) (ls : List Placed) : Within ls (comparison p ls) := by
  unfold comparison
  split
  · refine Within.tail _ ((literal_within _).bind fun l left _ => ?_)
    dsimp only
    split
    · exact List.suffix_cons _ _
    · exact List.suffix_refl _
  · exact List.suffix_refl _

theorem selector_within {ls : List Placed} (ih : ∀ ls' : List Placed, ls'.length < ls.length → WithinAt ls') :
    Within ls (plain (selector ls)) := by
  rw [plain_selector]
  split
  · exact List.suffix_cons _ _
  · refine Within.tail _ (Within.tail _ ?_)
    exact (path_within fun l hl => ih l (by simp only [List.length_cons]; omega)).bind
      fun p mid _ => comparison_within p mid
  · exact List.suffix_cons _ _
  · exact List.suffix_cons _ _
  · exact position_within ls

theorem within (ls : List Placed) : WithinAt ls :=
  have ih : ∀ ls' : List Placed, ls'.length < ls.length → WithinAt ls' := fun ls' _ => within ls'
  ⟨segments_within ih, selectors_within ih, selector_within ih⟩
termination_by ls.length

/-- **Reading as a whole fails within the lexemes.** -/
theorem whole_within {ls : List Placed} {e : Failure} (h : whole ls = .error e) : e.Within ls := by
  have hpath : Within ls (plain (path ls)) := path_within fun ls' _ => within ls'
  rw [whole_eq] at h
  cases hp : plain (path ls) with
  | error e' =>
    rw [hp] at h hpath
    cases h
    exact hpath
  | ok x =>
    obtain ⟨p, left⟩ := x
    rw [hp] at h hpath
    cases left with
    | nil => cases h
    | cons x left =>
      cases h
      exact hpath

/-! ## The limit on digits -/

/-- Among the lexemes is an integer numeral that is too long to be read. -/
def HasLong (ls : List Placed) : Prop :=
  ∃ n, Lexeme.number n ∈ ls.map Placed.lexeme ∧ n.isInteger = true ∧ digitLimit < n.whole.length

/-- **Only a numeral that is too long makes reading fail for the number of digits.** -/
theorem whole_blames (ls : List Placed) (k : Nat) (h : whole ls = .error (.tooManyDigits k)) : HasLong ls := by
  obtain ⟨n, hn, hinteger, hlength, hlong⟩ := whole_within h
  exact ⟨n, hn, hinteger, hlength ▸ hlong⟩

end TreePath.Parse
