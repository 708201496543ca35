import TreePath.Proofs.Rounding

/-!
# Written floating-point numbers

The text of a finite number is the text of a numeral (`Finite.text_numeral`) that is no integer numeral and whose
nearest number is the one written (`Finite.ofNumeral_numeral`). In every layout the numeral holds the digits of the
shortest decimal without their trailing zeros, perhaps with zeros on either side; these move its exponent only.
-/

namespace TreePath

/-! ## Numerals that can be read -/

/-- A text of digits, at least one. -/
def Text.IsDigits (s : Text) : Prop := s ≠ [] ∧ ∀ c ∈ s, c.isDigit = true

/-- A power of ten as it is written. -/
structure Numeral.Power.IsWritten (p : Numeral.Power) : Prop where
  mark : p.mark = 'e' ∨ p.mark = 'E'
  sign : ∀ c, p.sign = some c → c = '+' ∨ c = '-'
  digits : p.digits.IsDigits

/-- A numeral as it is written. -/
structure Numeral.IsWritten (n : Numeral) : Prop where
  whole : n.whole.IsDigits
  fraction : ∀ f, n.fraction = some f → f.IsDigits
  power : ∀ p, n.power = some p → p.IsWritten

theorem Text.isDigits_ofNat (n : Nat) : (Text.ofNat n).IsDigits :=
  ⟨fun h => decimalDigits_ne_nil n (List.map_eq_nil_iff.1 h), fun _ hc => Text.isDigit_of_mem_ofNat hc⟩

namespace Binary64

/-! ## Digits as text -/

theorem digitText_append (ds es : List Nat) : digitText (ds ++ es) = digitText ds ++ digitText es := List.map_append

theorem isDigits_digitText {ds : List Nat} (hne : ds ≠ []) (h : ∀ d ∈ ds, d < 10) : (digitText ds).IsDigits := by
  constructor
  · intro he
    exact hne (List.map_eq_nil_iff.1 he)
  · intro c hc
    obtain ⟨d, hd, rfl⟩ := List.mem_map.1 hc
    exact isDigit_digitPoint (h d hd)

theorem digitsValue_digitText {ds : List Nat} (h : ∀ d ∈ ds, d < 10) :
    (digitText ds).digitsValue = ofDecimalDigits ds := by
  have hmap : (digitText ds).map CodePoint.digitValue = ds := by
    rw [digitText, List.map_map]
    exact (List.map_congr_left fun d hd => digitValue_digitPoint (h d hd)).trans (List.map_id ds)
  rw [Text.digitsValue, hmap]

theorem stripZeros_append (ds : List Nat) : ∃ k, ds = stripZeros ds ++ List.replicate k 0 := by
  refine ⟨(ds.reverse.takeWhile (· == 0)).length, ?_⟩
  have hzeros : ds.reverse.takeWhile (· == 0) = List.replicate (ds.reverse.takeWhile (· == 0)).length 0 := by
    rw [List.eq_replicate_iff]
    exact ⟨rfl, fun d hd => eq_of_beq (List.all_eq_true.1 List.all_takeWhile d hd)⟩
  have hsplit : ds.reverse.takeWhile (· == 0) ++ ds.reverse.dropWhile (· == 0) = ds.reverse :=
    List.takeWhile_append_dropWhile
  rw [hzeros] at hsplit
  rw [stripZeros, ← List.reverse_replicate, ← List.reverse_append, hsplit, List.reverse_reverse]

/-! ## The numeral of a number -/

/-- The digits before and behind a point at position `p`. -/
def pointParts (ds : List Nat) (p : Int) : List Nat × List Nat :=
  if p ≤ 0 then ([0], List.replicate (-p).toNat 0 ++ ds)
  else if ds.length ≤ p then (ds ++ List.replicate (p - ds.length).toNat 0, [0])
  else (ds.take p.toNat, ds.drop p.toNat)

/-- At least two digits. -/
def exponentDigits (n : Nat) : List Nat := (if n < 10 then [0] else []) ++ decimalDigits n

def exponentPower (e : Int) : Numeral.Power :=
  ⟨'e', some ((if e < 0 then '-' else '+' : Char) : CodePoint), digitText (exponentDigits e.natAbs)⟩

/-- The numeral of `ds` with the point at position `p`, which lies among them or next to them. -/
def pointNumeral (negative : Bool) (ds : List Nat) (p : Int) : Numeral :=
  ⟨negative, digitText (pointParts ds p).1, some (digitText (pointParts ds p).2), none⟩

/-- The numeral of `ds` with the point behind the first of them and a power of ten. -/
def powerNumeral (negative : Bool) (ds : List Nat) (p : Int) : Numeral :=
  ⟨negative, digitText (ds.take 1), if ds.length ≤ 1 then none else some (digitText (ds.drop 1)),
    some (exponentPower (p - 1))⟩

def Finite.numeral (x : Finite) : Numeral :=
  if x.rank = 0 then ⟨x.negative, chars ['0'], some (chars ['0']), none⟩
  else
    let ds := decimalDigits (shortest x.rank).1
    let p := (ds.length : Int) + (shortest x.rank).2
    if -4 < p ∧ p ≤ 16 then pointNumeral x.negative (stripZeros ds) p else powerNumeral x.negative (stripZeros ds) p

theorem text_pointNumeral (negative : Bool) (ds : List Nat) (p : Int) :
    (pointNumeral negative ds p).text = Text.sign negative ++ pointText (chars ['.', '0']) ds p := by
  unfold pointNumeral pointText Numeral.text pointParts
  split
  · simp only [List.append_assoc, List.append_nil, Option.elim]
    rfl
  · split
    · simp only [List.append_assoc, List.append_nil, Option.elim, digitText_append]
      rfl
    · simp only [List.append_assoc, List.append_nil, Option.elim]

theorem text_exponentPower (e : Int) : (exponentPower e).text = chars ['e'] ++ exponentText e := by
  unfold exponentPower exponentText exponentDigits Numeral.Power.text
  rw [digitText_append]
  by_cases h : e.natAbs < 10
  · rw [if_pos h, if_pos h]
    rfl
  · rw [if_neg h, if_neg h]
    rfl

theorem text_powerNumeral (negative : Bool) (ds : List Nat) (p : Int) :
    (powerNumeral negative ds p).text = Text.sign negative ++ (digitText (ds.take 1) ++
      (if ds.length ≤ 1 then [] else chars ['.'] ++ digitText (ds.drop 1)) ++ chars ['e'] ++ exponentText (p - 1)) := by
  unfold powerNumeral Numeral.text
  by_cases h : ds.length ≤ 1
  · simp only [if_pos h, Option.elim, text_exponentPower, List.append_assoc]
  · simp only [if_neg h, Option.elim, text_exponentPower, List.append_assoc]

theorem Finite.text_numeral (x : Finite) : x.numeral.text = x.text := by
  unfold Finite.numeral Finite.text magnitudeText
  dsimp only
  split
  · rw [Numeral.text]
    simp only [Option.elim, List.append_assoc, List.append_nil]
    rfl
  · split
    · exact text_pointNumeral _ _ _
    · exact text_powerNumeral _ _ _

/-! ## What the numeral is -/

section Digits

variable {ds : List Nat}

theorem lt_of_mem_pointParts (h : ∀ d ∈ ds, d < 10) (p : Int) :
    (∀ d ∈ (pointParts ds p).1, d < 10) ∧ ∀ d ∈ (pointParts ds p).2, d < 10 := by
  have hzeros : ∀ k, ∀ d ∈ List.replicate k 0, d < 10 := by
    intro k d hd
    rw [(List.mem_replicate.1 hd).2]
    omega
  have hzero : ∀ d ∈ [0], d < 10 := hzeros 1
  unfold pointParts
  split
  · refine ⟨hzero, ?_⟩
    intro d hd
    rcases List.mem_append.1 hd with hd | hd
    · exact hzeros _ d hd
    · exact h d hd
  · split
    · refine ⟨?_, hzero⟩
      intro d hd
      rcases List.mem_append.1 hd with hd | hd
      · exact h d hd
      · exact hzeros _ d hd
    · exact ⟨fun d hd => h d (List.mem_of_mem_take hd), fun d hd => h d (List.mem_of_mem_drop hd)⟩

theorem pointParts_ne_nil (hne : ds ≠ []) (p : Int) : (pointParts ds p).1 ≠ [] ∧ (pointParts ds p).2 ≠ [] := by
  have hpos := List.length_pos_iff.2 hne
  unfold pointParts
  split
  · exact ⟨List.cons_ne_nil _ _, List.append_ne_nil_of_right_ne_nil _ hne⟩
  · split
    · exact ⟨List.append_ne_nil_of_left_ne_nil hne _, List.cons_ne_nil _ _⟩
    · constructor
      · intro h
        have := congrArg List.length h
        rw [List.length_take, List.length_nil] at this
        omega
      · intro h
        have := congrArg List.length h
        rw [List.length_drop, List.length_nil] at this
        omega

/-- The digits on both sides of the point are `ds`, perhaps with `j` zeros behind them. -/
theorem ofDecimalDigits_pointParts (ds : List Nat) (p : Int) :
    ∃ j : Nat, ofDecimalDigits ((pointParts ds p).1 ++ (pointParts ds p).2) = ofDecimalDigits ds * 10 ^ j ∧
      ((pointParts ds p).2.length : Int) = ds.length + j - p := by
  unfold pointParts
  split
  · refine ⟨0, ?_, ?_⟩
    · rw [← List.append_assoc, ofDecimalDigits_append,
        show [0] ++ List.replicate (-p).toNat 0 = List.replicate ((-p).toNat + 1) 0 from rfl,
        ofDecimalDigits_replicate_zero, Nat.zero_mul, Nat.zero_add, Nat.pow_zero, Nat.mul_one]
    · rw [List.length_append, List.length_replicate]
      omega
  · split
    · refine ⟨(p - ds.length).toNat + 1, ?_, ?_⟩
      · rw [List.append_assoc, ← List.replicate_succ', ofDecimalDigits_append, ofDecimalDigits_replicate_zero,
          List.length_replicate, Nat.add_zero]
      · rw [List.length_singleton]
        omega
    · refine ⟨0, ?_, ?_⟩
      · rw [List.take_append_drop, Nat.pow_zero, Nat.mul_one]
      · rw [List.length_drop]
        omega

theorem lt_of_mem_exponentDigits {n d : Nat} (h : d ∈ exponentDigits n) : d < 10 := by
  rcases List.mem_append.1 h with h | h
  · split at h
    · cases List.mem_singleton.1 h
      omega
    · cases h
  · exact lt_of_mem_decimalDigits h

theorem ofDecimalDigits_exponentDigits (n : Nat) : ofDecimalDigits (exponentDigits n) = n := by
  have hzero : ofDecimalDigits (if n < 10 then [0] else []) = 0 := by split <;> rfl
  rw [exponentDigits, ofDecimalDigits_append, hzero, ofDecimalDigits_decimalDigits, Nat.zero_mul, Nat.zero_add]

theorem exponentPower_value (e : Int) : (exponentPower e).value = e := by
  have hdigits : (exponentPower e).digits.digitsValue = e.natAbs :=
    (digitsValue_digitText fun _ hd => lt_of_mem_exponentDigits hd).trans (ofDecimalDigits_exponentDigits _)
  unfold Numeral.Power.value
  rw [hdigits]
  by_cases h : e < 0
  · rw [if_pos (by simp only [exponentPower, if_pos h])]
    omega
  · rw [if_neg (by simp only [exponentPower, if_neg h]; decide)]
    omega

theorem exponentPower_isWritten (e : Int) : (exponentPower e).IsWritten where
  mark := Or.inl rfl
  sign := by
    intro c hc
    cases hc
    split
    · exact Or.inr rfl
    · exact Or.inl rfl
  digits := isDigits_digitText (List.append_ne_nil_of_right_ne_nil _ (decimalDigits_ne_nil _))
    fun _ hd => lt_of_mem_exponentDigits hd

theorem pointNumeral_isWritten (hne : ds ≠ []) (h : ∀ d ∈ ds, d < 10) (negative : Bool) (p : Int) :
    (pointNumeral negative ds p).IsWritten where
  whole := isDigits_digitText (pointParts_ne_nil hne p).1 (lt_of_mem_pointParts h p).1
  fraction := by
    intro f hf
    cases hf
    exact isDigits_digitText (pointParts_ne_nil hne p).2 (lt_of_mem_pointParts h p).2
  power := fun _ hp => by cases hp

theorem powerNumeral_isWritten (hne : ds ≠ []) (h : ∀ d ∈ ds, d < 10) (negative : Bool) (p : Int) :
    (powerNumeral negative ds p).IsWritten where
  whole := by
    refine isDigits_digitText (fun he => ?_) fun d hd => h d (List.mem_of_mem_take hd)
    cases ds with
    | nil => exact hne rfl
    | cons d ds => cases he
  fraction := by
    intro f hf
    unfold powerNumeral at hf
    dsimp only at hf
    split at hf
    · cases hf
    · cases hf
      refine isDigits_digitText (fun he => ?_) fun d hd => h d (List.mem_of_mem_drop hd)
      have := congrArg List.length he
      rw [List.length_drop, List.length_nil] at this
      omega
  power := by
    intro q hq
    cases hq
    exact exponentPower_isWritten _

/-- The nearest number depends on the digits and the place of the point only. -/
theorem ofNumeral_pointNumeral (h : ∀ d ∈ ds, d < 10) (negative : Bool) (p : Int) :
    ofNumeral (pointNumeral negative ds p) = nearest negative (ofDecimalDigits ds) (p - ds.length) := by
  obtain ⟨j, hvalue, hlength⟩ := ofDecimalDigits_pointParts ds p
  have hlt := lt_of_mem_pointParts h p
  have hcoefficient : (pointNumeral negative ds p).coefficient = ofDecimalDigits ds * 10 ^ j := by
    rw [← hvalue, Numeral.coefficient]
    dsimp only [pointNumeral, Option.getD_some]
    rw [← digitText_append, digitsValue_digitText]
    intro d hd
    rcases List.mem_append.1 hd with hd | hd
    · exact hlt.1 d hd
    · exact hlt.2 d hd
  have hexponent : (pointNumeral negative ds p).exponent + j = p - ds.length := by
    rw [Numeral.exponent]
    dsimp only [pointNumeral, Option.getD_some, Option.elim]
    rw [digitText, List.length_map]
    omega
  rw [ofNumeral, hcoefficient, nearest, decimalRank_mul_pow, hexponent]
  rfl

theorem ofNumeral_powerNumeral (hne : ds ≠ []) (h : ∀ d ∈ ds, d < 10) (negative : Bool) (p : Int) :
    ofNumeral (powerNumeral negative ds p) = nearest negative (ofDecimalDigits ds) (p - ds.length) := by
  have hfraction : (powerNumeral negative ds p).fraction.getD [] = digitText (ds.drop 1) := by
    unfold powerNumeral
    dsimp only
    split
    · rename_i hle
      rw [List.drop_eq_nil_of_le hle]
      rfl
    · rfl
  have hcoefficient : (powerNumeral negative ds p).coefficient = ofDecimalDigits ds := by
    rw [Numeral.coefficient, hfraction]
    dsimp only [powerNumeral]
    rw [← digitText_append, List.take_append_drop, digitsValue_digitText h]
  have hexponent : (powerNumeral negative ds p).exponent = p - ds.length := by
    have hpos := List.length_pos_iff.2 hne
    rw [Numeral.exponent, hfraction]
    dsimp only [powerNumeral, Option.elim]
    rw [exponentPower_value, digitText, List.length_map, List.length_drop]
    omega
  rw [ofNumeral, hcoefficient, hexponent]
  rfl

end Digits

/-- The digits of the shortest decimal without their trailing zeros, and what they say about its rank. -/
theorem stripZeros_shortest {r : Nat} (hr : r < ranks) (hr0 : r ≠ 0) :
    stripZeros (decimalDigits (shortest r).1) ≠ [] ∧
      (∀ d ∈ stripZeros (decimalDigits (shortest r).1), d < 10) ∧
      decimalRank (ofDecimalDigits (stripZeros (decimalDigits (shortest r).1)))
        ((decimalDigits (shortest r).1).length + (shortest r).2 -
          (stripZeros (decimalDigits (shortest r).1)).length) = r := by
  have hrank := decimalRank_shortest hr
  generalize shortest r = ce at hrank ⊢
  obtain ⟨c, e⟩ := ce
  dsimp only at hrank ⊢
  obtain ⟨k, hk⟩ := stripZeros_append (decimalDigits c)
  have hvalue : c = ofDecimalDigits (stripZeros (decimalDigits c)) * 10 ^ k := by
    have := congrArg ofDecimalDigits hk
    rwa [ofDecimalDigits_decimalDigits, ofDecimalDigits_append, ofDecimalDigits_replicate_zero,
      List.length_replicate, Nat.add_zero] at this
  have hlength : (decimalDigits c).length = (stripZeros (decimalDigits c)).length + k := by
    have := congrArg List.length hk
    rwa [List.length_append, List.length_replicate] at this
  refine ⟨?_, ?_, ?_⟩
  · intro hnil
    rw [hnil] at hvalue
    have hzero : c = 0 := hvalue.trans (Nat.zero_mul _)
    rw [hzero] at hrank
    exact hr0 hrank.symm
  · intro d hd
    have hmem : d ∈ decimalDigits c := by
      rw [hk]
      exact List.mem_append_left _ hd
    exact lt_of_mem_decimalDigits hmem
  · have hexponent : ((decimalDigits c).length : Int) + e - (stripZeros (decimalDigits c)).length = e + k := by omega
    rw [hexponent, ← decimalRank_mul_pow, ← hvalue]
    exact hrank

theorem Finite.isInteger_numeral (x : Finite) : x.numeral.isInteger = false := by
  unfold Finite.numeral
  dsimp only
  split
  · rfl
  · split
    · rfl
    · exact Bool.and_false _

theorem Finite.numeral_isWritten (x : Finite) : x.numeral.IsWritten := by
  have hzero : (chars ['0']).IsDigits := isDigits_digitText (List.cons_ne_nil 0 []) (by decide)
  unfold Finite.numeral
  dsimp only
  split
  · exact ⟨hzero, fun f hf => by cases hf; exact hzero, fun p hp => by cases hp⟩
  · rename_i hr0
    obtain ⟨hne, hlt, _⟩ := stripZeros_shortest x.rank_lt hr0
    split
    · exact pointNumeral_isWritten hne hlt _ _
    · exact powerNumeral_isWritten hne hlt _ _

/-- **A written number reads back.** -/
theorem Finite.ofNumeral_numeral (x : Finite) : ofNumeral x.numeral = .finite x := by
  have hrank : ofRank x.negative x.rank = .finite x := dif_pos x.rank_lt
  unfold Finite.numeral
  dsimp only
  split
  · rename_i hr0
    rw [← hrank, hr0]
    rfl
  · rename_i hr0
    obtain ⟨hne, hlt, hstrip⟩ := stripZeros_shortest x.rank_lt hr0
    split
    · rw [ofNumeral_pointNumeral hlt, nearest, hstrip]
      exact hrank
    · rw [ofNumeral_powerNumeral hne hlt, nearest, hstrip]
      exact hrank

end Binary64

end TreePath
