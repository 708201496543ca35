import TreePath.Text.Digit
import Mathlib.Data.Nat.Digits.Lemmas

/-!
# How many digits a number has

`decimalDigits` and `ofDecimalDigits` put the leading digit first, the library's `Nat.digits` and `Nat.ofDigits` the
last one (`decimalDigits_eq_reverse`, `ofDecimalDigits_eq_ofDigits`). With this a number below `10 ^ k` is one of at
most `k` digits (`length_decimalDigits_le_iff`), whether its digits are computed or read (`ofDecimalDigits_lt`).
-/

namespace TreePath

/-! ## Digits of a number -/

theorem digitsOnto_eq_reverse {n : Nat} (acc : List Nat) (hn : n ≠ 0) :
    digitsOnto n acc = (Nat.digits 10 n).reverse ++ acc := by
  fun_induction digitsOnto n acc with
  | case1 n acc h => rw [Nat.digits_of_lt 10 n hn h]; rfl
  | case2 n acc h ih =>
    have hdiv : n / 10 ≠ 0 := by omega
    rw [ih hdiv, Nat.digits_def' (by omega) (by omega : 0 < n), List.reverse_cons, List.append_assoc]
    rfl

theorem decimalDigits_eq_reverse {n : Nat} (hn : n ≠ 0) : decimalDigits n = (Nat.digits 10 n).reverse := by
  rw [decimalDigits, digitsOnto_eq_reverse [] hn, List.append_nil]

theorem decimalDigits_zero : decimalDigits 0 = [0] := by
  rw [decimalDigits, digitsOnto, if_pos (by omega)]

theorem length_decimalDigits_le_iff {n k : Nat} (hk : 0 < k) : (decimalDigits n).length ≤ k ↔ n < 10 ^ k := by
  by_cases hn : n = 0
  · subst hn
    have hpow : 0 < 10 ^ k := Nat.pow_pos (by omega)
    rw [decimalDigits_zero, List.length_singleton]
    omega
  · rw [decimalDigits_eq_reverse hn, List.length_reverse]
    exact Nat.digits_length_le_iff (by omega) n

theorem length_decimalDigits_pos (n : Nat) : 0 < (decimalDigits n).length := by
  by_cases hn : n = 0
  · rw [hn, decimalDigits_zero, List.length_singleton]
    omega
  · rw [decimalDigits_eq_reverse hn, List.length_reverse, List.length_pos_iff]
    exact Nat.digits_ne_nil_iff_ne_zero.mpr hn

theorem decimalDigits_ne_nil (n : Nat) : decimalDigits n ≠ [] := List.length_pos_iff.1 (length_decimalDigits_pos n)

theorem length_decimalDigits_mul_pow {n : Nat} (k : Nat) (hn : n ≠ 0) :
    (decimalDigits (n * 10 ^ k)).length = (decimalDigits n).length + k := by
  have hpow : 0 < 10 ^ k := Nat.pow_pos (by omega)
  rw [decimalDigits_eq_reverse hn, decimalDigits_eq_reverse (Nat.mul_ne_zero hn (by omega)), Nat.mul_comm,
    Nat.digits_base_pow_mul (by omega) (by omega), List.length_reverse, List.length_append, List.length_replicate,
    List.length_reverse, Nat.add_comm]

/-! ## Numbers of digits -/

theorem ofDecimalDigits_eq_ofDigits (ds : List Nat) : ofDecimalDigits ds = Nat.ofDigits 10 ds.reverse := by
  rw [Nat.ofDigits_eq_foldr, List.foldr_reverse]
  refine congrArg (fun f => List.foldl f 0 ds) ?_
  funext n d
  exact Nat.add_comm _ _

theorem ofDecimalDigits_append (ds es : List Nat) :
    ofDecimalDigits (ds ++ es) = ofDecimalDigits ds * 10 ^ es.length + ofDecimalDigits es := by
  simp only [ofDecimalDigits_eq_ofDigits, List.reverse_append, Nat.ofDigits_append, List.length_reverse]
  rw [Nat.add_comm, Nat.mul_comm]

theorem ofDecimalDigits_replicate_zero (k : Nat) : ofDecimalDigits (List.replicate k 0) = 0 := by
  induction k with
  | zero => rfl
  | succ k ih => rw [List.replicate_succ', ofDecimalDigits_append, ih]; rfl

theorem ofDecimalDigits_lt {ds : List Nat} (h : ∀ d ∈ ds, d < 10) : ofDecimalDigits ds < 10 ^ ds.length := by
  rw [ofDecimalDigits_eq_ofDigits, ← List.length_reverse]
  exact Nat.ofDigits_lt_base_pow_length (by omega) fun d hd => h d (List.mem_reverse.1 hd)

theorem CodePoint.digitValue_lt (c : CodePoint) : c.digitValue < 10 := by
  unfold CodePoint.digitValue
  split
  · exact Nat.mod_lt _ (by omega)
  · omega

/-- A number read has no more digits than were written. -/
theorem length_decimalDigits_digitsValue {s : Text} {k : Nat} (hk : 0 < k) (h : s.length ≤ k) :
    (decimalDigits s.digitsValue).length ≤ k := by
  rw [length_decimalDigits_le_iff hk]
  have hlt : s.digitsValue < 10 ^ (s.map CodePoint.digitValue).length := by
    refine ofDecimalDigits_lt fun d hd => ?_
    obtain ⟨c, _, rfl⟩ := List.mem_map.1 hd
    exact c.digitValue_lt
  rw [List.length_map] at hlt
  exact Nat.lt_of_lt_of_le hlt (Nat.pow_le_pow_right (by omega) h)

end TreePath
