import TreePath.Number.Shortest
import TreePath.Proofs.DecimalDigits

/-!
# Decimals that read back

Rounding depends on the value of a fraction only (`nearestRank_congr`), so zeros moved between the coefficient and the
exponent of a decimal do not change its rank (`decimalRank_mul_pow`). A magnitude has its own rank
(`nearestRank_of_exact`). With these the decimal that `shortest` finds for a rank has that rank
(`decimalRank_shortest`): a grid point is tested before it is taken, and the exact decimal needs no test.
-/

namespace TreePath.Binary64

/-! ## Rounding of fractions -/

theorem roundDiv_mul (a : Nat) {b : Nat} (hb : 0 < b) : roundDiv (a * b) b = a := by
  have hdiv : a * b / b = a := Nat.mul_div_cancel a hb
  have hmod : a * b % b = 0 := Nat.mul_mod_left a b
  unfold roundDiv
  simp only [hdiv, hmod]
  rw [if_pos (by omega)]

theorem roundDiv_scale (n d : Nat) {m : Nat} (hm : 0 < m) : roundDiv (n * m) (d * m) = roundDiv n d := by
  have hlt : 2 * (n % d * m) < d * m ↔ 2 * (n % d) < d := by
    rw [← Nat.mul_assoc]
    exact Nat.mul_lt_mul_right hm
  have hgt : d * m < 2 * (n % d * m) ↔ d < 2 * (n % d) := by
    rw [← Nat.mul_assoc]
    exact Nat.mul_lt_mul_right hm
  unfold roundDiv
  simp only [Nat.mul_div_mul_right n d hm, Nat.mul_mod_mul_right, hlt, hgt]

theorem nearestRank_scale (n d : Nat) {m : Nat} (hm : 0 < m) : nearestRank (n * m) (d * m) = nearestRank n d := by
  have hunits : n * m * Nat.pow 2 1074 / (d * m) = n * Nat.pow 2 1074 / d := by
    rw [Nat.mul_right_comm]
    exact Nat.mul_div_mul_right _ _ hm
  unfold nearestRank
  simp only [hunits]
  rw [Nat.mul_right_comm n m, Nat.mul_right_comm d m, roundDiv_scale _ _ hm]

/-- Equal fractions have the same rank. -/
theorem nearestRank_congr {n d n' d' : Nat} (hd : 0 < d) (hd' : 0 < d') (h : n * d' = n' * d) :
    nearestRank n d = nearestRank n' d' := by
  rw [← nearestRank_scale n d hd', ← nearestRank_scale n' d' hd, h, Nat.mul_comm d d']

theorem significand_lt {r : Nat} : significand r < 2 ^ 53 := by
  simp only [significand, Nat.pow_eq]
  split <;> omega

/-- A magnitude has its own rank. -/
theorem nearestRank_of_exact {r n d : Nat} (hd : 0 < d) (h : n * 2 ^ 1074 = significand r * 2 ^ scale r * d) :
    nearestRank n d = r := by
  have hunits : n * 2 ^ 1074 / d = significand r * 2 ^ scale r := by rw [h, Nat.mul_div_cancel _ hd]
  unfold nearestRank
  simp only [Nat.pow_eq, hunits]
  simp only [h]
  by_cases hr : r < 2 ^ 53
  · simp only [significand, scale, Nat.pow_eq, if_pos hr, Nat.pow_zero, Nat.mul_one]
    rw [roundDiv_mul r hd]
    omega
  · have hsig : significand r = 2 ^ 52 + r % 2 ^ 52 := if_neg hr
    have hscale : scale r = r / 2 ^ 52 - 1 := if_neg hr
    have hpow : 0 < 2 ^ scale r := Nat.pow_pos (by omega)
    have hlow : 2 ^ (52 + scale r) ≤ significand r * 2 ^ scale r := by
      rw [Nat.pow_add]
      exact Nat.mul_le_mul_right _ (by omega)
    have hhigh : significand r * 2 ^ scale r < 2 ^ (52 + scale r + 1) := by
      rw [Nat.add_right_comm, Nat.pow_add]
      exact Nat.mul_lt_mul_of_pos_right significand_lt hpow
    have hlog : (significand r * 2 ^ scale r).log2 = 52 + scale r :=
      (Nat.log2_eq_iff (by omega)).2 ⟨hlow, hhigh⟩
    have hbig : ¬ significand r * 2 ^ scale r < 2 ^ 53 := by
      have : 2 ^ 53 ≤ 2 ^ (52 + scale r) := Nat.pow_le_pow_right (by omega) (by omega)
      omega
    rw [if_neg hbig, hlog, Nat.add_sub_cancel_left, Nat.mul_assoc, Nat.mul_comm _ d,
      roundDiv_mul _ (Nat.mul_pos hd hpow)]
    omega

/-! ## Rounding of decimals -/

/-- Both branches of the conversion are one fraction. -/
theorem decimalRank_eq_nearestRank {c : Nat} {e : Int} (hc : c ≠ 0) (hhigh : Exact.adjusted c e ≤ 310)
    (hlow : -330 ≤ Exact.adjusted c e) :
    decimalRank c e = nearestRank (c * 10 ^ e.toNat) (10 ^ (-e).toNat) := by
  rw [decimalRank, if_neg hc, if_neg (by omega), if_neg (by omega)]
  split
  · rename_i he
    rw [Int.toNat_of_nonpos (by omega : -e ≤ 0), Nat.pow_zero, Nat.pow_eq]
  · rename_i he
    rw [Int.toNat_of_nonpos (by omega : e ≤ 0), Nat.pow_zero, Nat.mul_one, Nat.pow_eq]

theorem adjusted_mul_pow {c : Nat} (k : Nat) (e : Int) (hc : c ≠ 0) :
    Exact.adjusted (c * 10 ^ k) e = Exact.adjusted c (e + k) := by
  unfold Exact.adjusted
  rw [length_decimalDigits_mul_pow k hc]
  omega

theorem decimalRank_mul_pow (c k : Nat) (e : Int) : decimalRank (c * 10 ^ k) e = decimalRank c (e + k) := by
  have hpow : ∀ j, 0 < 10 ^ j := fun j => Nat.pow_pos (by omega)
  by_cases hc : c = 0
  · rw [hc, Nat.zero_mul]
    rfl
  · have hck : c * 10 ^ k ≠ 0 := Nat.mul_ne_zero hc (by have := hpow k; omega)
    have hadj := adjusted_mul_pow k e hc
    by_cases hhigh : 310 < Exact.adjusted c (e + k)
    · rw [decimalRank, decimalRank, if_neg hck, if_neg hc, hadj, if_pos hhigh, if_pos hhigh]
    · by_cases hlow : Exact.adjusted c (e + k) < -330
      · rw [decimalRank, decimalRank, if_neg hck, if_neg hc, hadj, if_neg hhigh, if_neg hhigh, if_pos hlow,
          if_pos hlow]
      · rw [decimalRank_eq_nearestRank hck (by omega) (by omega), decimalRank_eq_nearestRank hc (by omega) (by omega)]
        apply nearestRank_congr (hpow _) (hpow _)
        have hexp : k + e.toNat + (-(e + k)).toNat = (e + k).toNat + (-e).toNat := by omega
        rw [Nat.mul_assoc, Nat.mul_assoc, Nat.mul_assoc, ← Nat.pow_add, ← Nat.pow_add, ← Nat.pow_add, ← hexp,
          Nat.add_assoc]

/-! ## The decimal of a rank -/

theorem decimalRank_onGrid {r n d : Nat} {e : Int} {c : Nat} (h : onGrid? r n d e = some c) :
    decimalRank c e = r := by
  unfold onGrid? at h
  split at h
  rename_i a b _
  dsimp only at h
  split at h
  · rename_i hlow hhigh
    have hlow := eq_of_beq hlow
    have hhigh := eq_of_beq hhigh
    split at h
    · cases h
      exact hlow
    · split at h
      · cases h
        exact hhigh
      · cases h
        rcases Nat.mod_two_eq_zero_or_one (a / b) with hm | hm
        · rw [hm]
          exact hlow
        · rw [hm]
          exact hhigh
  · rename_i hlow _
    cases h
    exact eq_of_beq hlow
  · rename_i _ hhigh
    cases h
    exact eq_of_beq hhigh
  · cases h

theorem decimalRank_firstGrid {r n d : Nat} : ∀ {grids : Nat} {e : Int} {c : Nat} {e' : Int},
    firstGrid? r n d grids e = some (c, e') → decimalRank c e' = r
  | grids + 1, e, c, e', h => by
    unfold firstGrid? at h
    split at h
    · rename_i hgrid
      cases h
      exact decimalRank_onGrid hgrid
    · exact decimalRank_firstGrid h

theorem scale_le {r : Nat} (hr : r < ranks) : scale r ≤ 2045 := by
  simp only [ranks, Nat.pow_eq] at hr
  simp only [scale, Nat.pow_eq]
  split <;> omega

theorem significand_pos {r : Nat} (hr : r ≠ 0) : 0 < significand r := by
  simp only [significand, Nat.pow_eq]
  split <;> omega

theorem significand_mul_lt {r j : Nat} (k : Nat) (hj : 16 ≤ j) : significand r * 5 ^ k < 10 ^ (j + k) := by
  have hsig : significand r < 10 ^ j :=
    Nat.lt_of_lt_of_le (Nat.lt_of_lt_of_le significand_lt (by decide : 2 ^ 53 ≤ 10 ^ 16))
      (Nat.pow_le_pow_right (by omega) hj)
  rw [Nat.pow_add]
  exact Nat.mul_lt_mul_of_lt_of_le hsig (Nat.pow_le_pow_left (by omega) k) (Nat.pow_pos (by omega))

theorem two_pow_le_ten_pow (k : Nat) : 2 ^ (93 * k) ≤ 10 ^ (28 * k) := by
  rw [Nat.pow_mul, Nat.pow_mul]
  exact Nat.pow_le_pow_left (by decide) k

/-- For eleven, one and two: powers that no finite magnitude reaches. For eleven, 51 and 23: the reciprocals of powers
that every positive magnitude exceeds. -/
theorem two_pow_lt_ten_pow {a b j k : Nat} (hab : 2 ^ a < 10 ^ b) (h : j ≤ 93 * k + a) :
    2 ^ j < 10 ^ (28 * k + b) := by
  apply Nat.lt_of_le_of_lt (Nat.pow_le_pow_right (by omega) h)
  rw [Nat.pow_add, Nat.pow_add]
  exact Nat.mul_lt_mul_of_le_of_lt (two_pow_le_ten_pow k) hab (Nat.pow_pos (by omega))

theorem ten_pow_le_five_pow {j k : Nat} (hk : k ≤ 93 * j + 51) : 10 ^ (k - (28 * j + 23)) ≤ 5 ^ k := by
  by_cases h : k ≤ 28 * j + 23
  · rw [Nat.sub_eq_zero_of_le h]
    exact Nat.pow_pos (by omega)
  · refine Nat.le_of_mul_le_mul_right (c := 10 ^ (28 * j + 23)) ?_ (Nat.pow_pos (by omega))
    calc 10 ^ (k - (28 * j + 23)) * 10 ^ (28 * j + 23) = 5 ^ k * 2 ^ k := by
          rw [← Nat.pow_add, ← Nat.mul_pow, Nat.sub_add_cancel (by omega)]
      _ ≤ 5 ^ k * 10 ^ (28 * j + 23) := Nat.mul_le_mul_left _ (Nat.le_of_lt (two_pow_lt_ten_pow (by decide) hk))

/-- The exact decimal of a magnitude that is a whole number. -/
theorem decimalRank_whole {r : Nat} (hr : r < ranks) (hr0 : r ≠ 0) (hpow : 0 ≤ power r) :
    decimalRank (significand r * 2 ^ (power r).toNat) 0 = r := by
  have hscale : scale r = (power r).toNat + 1074 := by
    unfold power at hpow ⊢
    omega
  have hle := scale_le hr
  have hc : significand r * 2 ^ (power r).toNat ≠ 0 :=
    Nat.mul_ne_zero (Nat.ne_of_gt (significand_pos hr0)) (Nat.ne_of_gt (Nat.pow_pos (by omega)))
  have hlen : (decimalDigits (significand r * 2 ^ (power r).toNat)).length ≤ 28 * 11 + 2 := by
    apply (length_decimalDigits_le_iff (by omega)).2
    calc significand r * 2 ^ (power r).toNat ≤ 2 ^ 53 * 2 ^ (power r).toNat :=
          Nat.mul_le_mul_right _ (Nat.le_of_lt significand_lt)
      _ = 2 ^ (53 + (power r).toNat) := (Nat.pow_add 2 53 _).symm
      _ < 10 ^ (28 * 11 + 2) := two_pow_lt_ten_pow (by decide : 2 ^ 1 < 10 ^ 2) (by omega)
  have hadj : Exact.adjusted (significand r * 2 ^ (power r).toNat) 0 =
      (decimalDigits (significand r * 2 ^ (power r).toNat)).length := Int.add_zero _
  rw [decimalRank_eq_nearestRank hc (by omega) (by omega)]
  apply nearestRank_of_exact (by decide)
  simp only [hscale, Nat.pow_add, Int.neg_zero, Int.toNat_zero, Nat.pow_zero, Nat.mul_one, Nat.mul_assoc]

/-- The exact decimal of a magnitude that is no whole number: with five for two the exponent counts tens. -/
theorem decimalRank_fraction {r : Nat} (hr0 : r ≠ 0) (hpow : power r < 0) :
    decimalRank (significand r * 5 ^ (-power r).toNat) (power r) = r := by
  obtain ⟨k, hk⟩ : ∃ k : Nat, power r = -k := ⟨(-power r).toNat, by omega⟩
  have hscale : scale r + k = 1074 := by
    unfold power at hk
    omega
  rw [hk, Int.neg_neg, Int.toNat_natCast]
  have hsig := significand_pos hr0
  have hc : significand r * 5 ^ k ≠ 0 := Nat.mul_ne_zero (by omega) (Nat.ne_of_gt (Nat.pow_pos (by omega)))
  have hhigh : (decimalDigits (significand r * 5 ^ k)).length ≤ 310 + k :=
    (length_decimalDigits_le_iff (by omega)).2 (significand_mul_lt k (by omega))
  have hlow : k - 331 < (decimalDigits (significand r * 5 ^ k)).length := by
    by_cases h : k ≤ 331
    · have := length_decimalDigits_pos (significand r * 5 ^ k)
      omega
    · rw [← Nat.not_le, length_decimalDigits_le_iff (by omega), Nat.not_lt]
      exact Nat.le_trans (ten_pow_le_five_pow (j := 11) (by omega)) (Nat.le_mul_of_pos_left _ hsig)
  have hadj : Exact.adjusted (significand r * 5 ^ k) (-k) =
      (decimalDigits (significand r * 5 ^ k)).length - (k : Int) := rfl
  rw [decimalRank_eq_nearestRank hc (by omega) (by omega), Int.neg_neg, Int.toNat_natCast,
    Int.toNat_of_nonpos (by omega), Nat.pow_zero, Nat.mul_one]
  apply nearestRank_of_exact (Nat.pow_pos (by omega))
  rw [← hscale, Nat.pow_add, show 10 ^ k = 2 ^ k * 5 ^ k from Nat.mul_pow 2 5 k]
  simp only [Nat.mul_comm, Nat.mul_left_comm, Nat.mul_assoc]

/-- **The shortest decimal of a rank has that rank.** -/
theorem decimalRank_shortest {r : Nat} (hr : r < ranks) : decimalRank (shortest r).1 (shortest r).2 = r := by
  by_cases hr0 : r = 0
  · rw [hr0]
    rfl
  · unfold shortest
    rw [if_neg hr0]
    cases hfraction : fraction r with | mk n d =>
    dsimp only
    cases hgrid : firstGrid? r n d 17 (leadingPosition n d - 1) with
    | some ce => exact decimalRank_firstGrid hgrid
    | none =>
      dsimp only
      by_cases hpow : 0 ≤ power r
      · rw [fraction, if_pos hpow] at hfraction
        rw [if_pos hpow, ← (Prod.mk.inj hfraction).1]
        exact decimalRank_whole hr hr0 hpow
      · rw [if_neg hpow]
        exact decimalRank_fraction hr0 (by omega)

end TreePath.Binary64
