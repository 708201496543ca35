import Mathlib.Algebra.Order.Field.Power
import Mathlib.Algebra.Order.Ring.Rat
import Mathlib.Order.WithBot
import Mathlib.Tactic.Positivity
import TreePath.Number.Basic
import TreePath.Proofs.DecimalDigits

/-!
# Comparison by value

An exact decimal number stands for a rational number (`Exact.value`), and `Exact.compare` is the order of the rational
numbers (`Exact.compare_eq_cmp`): leading digits at different positions decide, and at the same position both numbers
are scaled to whole ones. With the infinities at its ends the line stays a linear order (`Extended.compare_eq_cmp`).
Numbers are equal when they are one point (`Number.equal_iff`), so that equal numbers are interchangeable in every
comparison (`Number.equal_congr_right`, `Number.order?_congr_right`).
-/

namespace TreePath

namespace Exact

/-- The rational number `c · 10 ^ e`. -/
def value (x : Exact) : ℚ := x.coefficient * (10 : ℚ) ^ x.exponent

/-! ## Leading digits -/

theorem lt_pow_adjusted (c : Nat) (e : Int) : (c : ℚ) * 10 ^ e < 10 ^ adjusted c e := by
  have hlen : c < 10 ^ (decimalDigits c).length :=
    (length_decimalDigits_le_iff (length_decimalDigits_pos c)).1 (Nat.le_refl _)
  have hcast : (c : ℚ) < 10 ^ (decimalDigits c).length := by exact_mod_cast hlen
  rw [adjusted, zpow_add₀ (by norm_num : (10 : ℚ) ≠ 0), zpow_natCast]
  exact mul_lt_mul_of_pos_right hcast (by positivity)

theorem pow_adjusted_le {c : Nat} (hc : 0 < c) (e : Int) : (10 : ℚ) ^ (adjusted c e - 1) ≤ c * 10 ^ e := by
  obtain ⟨k, hk⟩ := Nat.exists_eq_add_of_lt (length_decimalDigits_pos c)
  have hpow : 10 ^ k ≤ c := by
    by_cases hzero : k = 0
    · rw [hzero]
      exact hc
    · by_contra hlt
      have hle := (length_decimalDigits_le_iff (n := c) (Nat.pos_of_ne_zero hzero)).2 (by omega)
      omega
  have hcast : (10 : ℚ) ^ k ≤ c := by exact_mod_cast hpow
  have hexp : adjusted c e - 1 = (k : Int) + e := by
    unfold adjusted
    omega
  rw [hexp, zpow_add₀ (by norm_num : (10 : ℚ) ≠ 0), zpow_natCast]
  exact mul_le_mul_of_nonneg_right hcast (by positivity)

theorem lt_of_adjusted_lt {c d : Nat} {e f : Int} (hd : 0 < d) (h : adjusted c e < adjusted d f) :
    (c : ℚ) * 10 ^ e < d * 10 ^ f :=
  calc (c : ℚ) * 10 ^ e < 10 ^ adjusted c e := lt_pow_adjusted c e
    _ ≤ 10 ^ (adjusted d f - 1) := zpow_le_zpow_right₀ (by norm_num) (by omega)
    _ ≤ d * 10 ^ f := pow_adjusted_le hd f

/-- Scaled down by a power of ten that is not above `e`, a number is whole. -/
theorem scaled (c : Nat) {e m : Int} (h : m ≤ e) :
    ((c * Nat.pow 10 (e - m).toNat : Nat) : ℚ) * 10 ^ m = c * 10 ^ e := by
  have hpow : (10 : ℚ) ^ (e - m).toNat * 10 ^ m = 10 ^ e := by
    rw [← zpow_natCast, ← zpow_add₀ (by norm_num : (10 : ℚ) ≠ 0)]
    congr 1
    omega
  rw [Nat.pow_eq, Nat.cast_mul, Nat.cast_pow, mul_assoc]
  exact congrArg ((c : ℚ) * ·) hpow

theorem comparePositive_eq_cmp {c d : Nat} (hc : 0 < c) (hd : 0 < d) (e f : Int) :
    comparePositive c e d f = cmp ((c : ℚ) * 10 ^ e) (d * 10 ^ f) := by
  unfold comparePositive
  cases h : Ord.compare (adjusted c e) (adjusted d f) with
  | lt => exact ((cmp_eq_lt_iff _ _).2 (lt_of_adjusted_lt hd (compare_lt_iff_lt.1 h))).symm
  | gt => exact ((cmp_eq_gt_iff _ _).2 (lt_of_adjusted_lt hc (compare_gt_iff_gt.1 h))).symm
  | eq =>
    dsimp only
    rw [← scaled c (min_le_left e f), ← scaled d (min_le_right e f), cmp_mul_pos_right (by positivity),
      Nat.strictMono_cast.cmp_map_eq, cmp_eq_compare]

/-! ## Signs -/

theorem value_pos {x : Exact} (h : 0 < x.coefficient) : 0 < x.value :=
  mul_pos (by exact_mod_cast h) (by positivity)

theorem value_neg {x : Exact} (h : x.coefficient < 0) : x.value < 0 :=
  mul_neg_of_neg_of_pos (by exact_mod_cast h) (by positivity)

theorem value_zero {x : Exact} (h : x.coefficient = 0) : x.value = 0 := by
  rw [value, h, Int.cast_zero, zero_mul]

theorem value_eq_natAbs {x : Exact} (h : 0 < x.coefficient) : x.value = x.coefficient.natAbs * (10 : ℚ) ^ x.exponent := by
  rw [value, Nat.cast_natAbs, abs_of_pos h]

theorem value_eq_neg_natAbs {x : Exact} (h : x.coefficient < 0) :
    x.value = -1 * (x.coefficient.natAbs * (10 : ℚ) ^ x.exponent) := by
  rw [value, Nat.cast_natAbs, abs_of_neg h, Int.cast_neg, neg_mul, neg_mul, one_mul, neg_neg]

theorem value_lt_of_sign_lt {x y : Exact} (h : x.coefficient.sign < y.coefficient.sign) : x.value < y.value := by
  rcases lt_trichotomy x.coefficient 0 with hx | hx | hx
  · rw [Int.sign_eq_neg_one_of_neg hx] at h
    rcases lt_trichotomy y.coefficient 0 with hy | hy | hy
    · rw [Int.sign_eq_neg_one_of_neg hy] at h
      exact absurd h (lt_irrefl _)
    · rw [value_zero hy]
      exact value_neg hx
    · exact (value_neg hx).trans (value_pos hy)
  · rw [hx, Int.sign_zero, Int.sign_pos_iff] at h
    rw [value_zero hx]
    exact value_pos h
  · have hle : y.coefficient.sign ≤ 1 := by
      rcases Int.sign_trichotomy y.coefficient with hy | hy | hy <;> omega
    rw [Int.sign_eq_one_of_pos hx] at h
    omega

/-- **Exact numbers are compared by value.** -/
theorem compare_eq_cmp (x y : Exact) : x.compare y = cmp x.value y.value := by
  unfold compare
  cases h : Ord.compare x.coefficient.sign y.coefficient.sign with
  | lt => exact ((cmp_eq_lt_iff _ _).2 (value_lt_of_sign_lt (compare_lt_iff_lt.1 h))).symm
  | gt => exact ((cmp_eq_gt_iff _ _).2 (value_lt_of_sign_lt (compare_gt_iff_gt.1 h))).symm
  | eq =>
    have hsign := compare_eq_iff_eq.1 h
    dsimp only
    rcases lt_trichotomy x.coefficient 0 with hx | hx | hx
    · have hy : y.coefficient < 0 := Int.sign_neg_iff.1 (hsign ▸ Int.sign_neg_iff.2 hx)
      rw [if_neg (by omega), if_neg (by omega), comparePositive_eq_cmp (by omega) (by omega), value_eq_neg_natAbs hx,
        value_eq_neg_natAbs hy, cmp_mul_neg_left (by norm_num)]
    · have hy : y.coefficient = 0 := Int.sign_eq_zero_iff_zero.1 (by rw [← hsign, hx, Int.sign_zero])
      rw [if_pos hx, value_zero hx, value_zero hy, cmp_self_eq_eq]
    · have hy : 0 < y.coefficient := Int.sign_pos_iff.1 (by rw [← hsign, Int.sign_eq_one_of_pos hx]; omega)
      rw [if_neg (by omega), if_pos hx, comparePositive_eq_cmp (by omega) (by omega), value_eq_natAbs hx,
        value_eq_natAbs hy]

end Exact

/-! ## The line with its ends -/

namespace Extended

/-- The place of a point on the rational line, which has a least and a greatest place besides. -/
def place : Extended → WithBot (WithTop ℚ)
  | .negativeInfinity => ⊥
  | .exact x => ((x.value : WithTop ℚ) : WithBot (WithTop ℚ))
  | .positiveInfinity => ((⊤ : WithTop ℚ) : WithBot (WithTop ℚ))

/-- Points of the line are compared by place. -/
theorem compare_eq_cmp (x y : Extended) : x.compare y = cmp x.place y.place := by
  have hends : (⊥ : WithBot (WithTop ℚ)) < ((⊤ : WithTop ℚ) : WithBot (WithTop ℚ)) := WithBot.bot_lt_coe ⊤
  cases x with
  | exact x =>
    cases y with
    | exact y =>
      have htop := WithTop.coe_strictMono.cmp_map_eq x.value y.value
      have hbot := WithBot.coe_strictMono.cmp_map_eq (x.value : WithTop ℚ) y.value
      exact (Exact.compare_eq_cmp x y).trans (htop.symm.trans hbot.symm)
    | negativeInfinity => exact ((cmp_eq_gt_iff _ _).2 (WithBot.bot_lt_coe _)).symm
    | positiveInfinity => exact ((cmp_eq_lt_iff _ _).2 (WithBot.coe_lt_coe.2 (WithTop.coe_lt_top _))).symm
  | negativeInfinity =>
    cases y with
    | exact y => exact ((cmp_eq_lt_iff _ _).2 (WithBot.bot_lt_coe _)).symm
    | negativeInfinity => exact (cmp_self_eq_eq _).symm
    | positiveInfinity => exact ((cmp_eq_lt_iff _ _).2 hends).symm
  | positiveInfinity =>
    cases y with
    | exact y => exact ((cmp_eq_gt_iff _ _).2 (WithBot.coe_lt_coe.2 (WithTop.coe_lt_top _))).symm
    | negativeInfinity => exact ((cmp_eq_gt_iff _ _).2 hends).symm
    | positiveInfinity => exact (cmp_self_eq_eq _).symm

end Extended

/-! ## Numbers -/

namespace Number

/-- A comparison of parts is one of their places, if both have one. -/
theorem compare?_eq_cmp (a b : Option Extended) :
    compare? a b = (a.map Extended.place).bind fun p => (b.map Extended.place).map fun q => cmp p q := by
  cases a with
  | none => rfl
  | some a =>
    cases b with
    | none => rfl
    | some b => exact congrArg some (Extended.compare_eq_cmp a b)

theorem compare?_eq_eq_iff {a b : Option Extended} :
    compare? a b = some .eq ↔ ∃ p, a.map Extended.place = some p ∧ b.map Extended.place = some p := by
  rw [compare?_eq_cmp]
  constructor
  · intro h
    obtain ⟨p, hp, h⟩ := Option.bind_eq_some_iff.1 h
    obtain ⟨q, hq, h⟩ := Option.map_eq_some_iff.1 h
    cases (cmp_eq_eq_iff p q).1 h
    exact ⟨p, hp, hq⟩
  · rintro ⟨p, hp, hq⟩
    rw [hp, hq]
    exact congrArg some (cmp_self_eq_eq p)

/-- The places of the real part and of the imaginary part of a number; a number with a NaN for a part has none. -/
def point? (x : Number) : Option (WithBot (WithTop ℚ) × WithBot (WithTop ℚ)) :=
  (x.realPart?.map Extended.place).bind fun p => (x.imaginaryPart?.map Extended.place).map fun q => (p, q)

theorem point?_eq_some_iff {x : Number} {p q : WithBot (WithTop ℚ)} :
    x.point? = some (p, q) ↔
      x.realPart?.map Extended.place = some p ∧ x.imaginaryPart?.map Extended.place = some q := by
  unfold point?
  cases x.realPart?.map Extended.place <;> cases x.imaginaryPart?.map Extended.place <;> simp

/-- **Numbers are equal by value**: they are one point. -/
theorem equal_iff {x y : Number} : x.equal y = true ↔ ∃ p, x.point? = some p ∧ y.point? = some p := by
  rw [equal, Bool.and_eq_true, beq_iff_eq, beq_iff_eq, compare?_eq_eq_iff, compare?_eq_eq_iff, Prod.exists]
  simp only [point?_eq_some_iff]
  constructor
  · rintro ⟨⟨p, hx, hy⟩, q, hx', hy'⟩
    exact ⟨p, q, ⟨hx, hx'⟩, hy, hy'⟩
  · rintro ⟨p, q, ⟨hx, hx'⟩, hy, hy'⟩
    exact ⟨⟨p, hx, hy⟩, q, hx', hy'⟩

/-- What equals one of two equal numbers equals the other. -/
theorem equal_congr_right {x y : Number} (h : x.equal y = true) (z : Number) : z.equal x = z.equal y := by
  obtain ⟨p, hx, hy⟩ := equal_iff.1 h
  rw [Bool.eq_iff_iff, equal_iff, equal_iff, hx, hy]

/-- Equal numbers on the real line stand in the same order to every number. -/
theorem order?_congr_right {x y : Number} (h : x.equal y = true) (hx : x.line? = x.realPart?)
    (hy : y.line? = y.realPart?) (z : Number) : z.order? x = z.order? y := by
  obtain ⟨⟨p, q⟩, hpx, hpy⟩ := equal_iff.1 h
  rw [order?, order?, hx, hy, compare?_eq_cmp, compare?_eq_cmp, (point?_eq_some_iff.1 hpx).1,
    (point?_eq_some_iff.1 hpy).1]

/-! ## Numbers that are none -/

/-- Whether the number is a NaN, or a complex number with a part that is one. -/
def isNaN : Number → Bool
  | .int _ => false
  | .float x => x == .nan
  | .decimal (.nan ..) => true
  | .decimal _ => false
  | .complex re im => re == .nan || im == .nan

/-- Just the NaNs are no point. -/
theorem point?_eq_none_iff {x : Number} : x.point? = none ↔ x.isNaN = true := by
  cases x with
  | int n => simp [point?, realPart?, imaginaryPart?, isNaN]
  | float x => cases x <;> simp [point?, realPart?, imaginaryPart?, isNaN, Binary64.extended?]
  | decimal d => cases d <;> simp [point?, realPart?, imaginaryPart?, isNaN, Decimal.extended?]
  | complex re im => cases re <;> cases im <;> simp [point?, realPart?, imaginaryPart?, isNaN, Binary64.extended?]

end Number

end TreePath
